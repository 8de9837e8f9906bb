import Enrollment.Proofs.SingleFlight.Course

/-! # What a caller goes through

A caller joins one flight after another as long as they fail, and at last shares the value of one
or does the work itself, once. Its own events tell all of this, whatever the others do meanwhile.
-/

namespace Enrollment.SingleFlight

variable {κ ν ε : Type}

/-- What a caller has gone through: how often it did the work, where it stands, and its events. -/
inductive Story (i : Nat) (key : κ) : Nat → Phase ν ε → List (Event κ ν ε) → Prop where
  | called : Story i key 0 .starting [.called i key]
  | left {runs : Nat} {phase : Phase ν ε} {events : List (Event κ ν ε)}
    (idle : phase.isIdle = true) (h : Story i key runs phase events) :
    Story i key runs .dropped (events ++ [.left i])
  | joined {runs : Nat} {events : List (Event κ ν ε)} (f : Nat)
    (h : Story i key runs .starting events) :
    Story i key runs (.waiting f) (events ++ [.joined i f])
  | missed {runs f : Nat} {events : List (Event κ ν ε)}
    (h : Story i key runs (.waiting f) events) :
    Story i key runs .starting (events ++ [.missed i f])
  | shared {runs f : Nat} {events : List (Event κ ν ε)} (value : ν)
    (h : Story i key runs (.waiting f) events) :
    Story i key runs (.returned (.ok value)) (events ++ [.shared i f value])
  | started {runs : Nat} {events : List (Event κ ν ε)} (f : Nat)
    (h : Story i key runs .starting events) :
    Story i key (runs + 1) (.working f) (events ++ [.started i f key])
  | worked {runs f : Nat} {events : List (Event κ ν ε)} (result : Option (Except ε ν))
    (h : Story i key runs (.working f) events) :
    Story i key runs (.ending f result) (events ++ [.worked i f result])
  | cleared {runs f : Nat} {result : Option (Except ε ν)} {events : List (Event κ ν ε)}
    (h : Story i key runs (.ending f result) events) :
    Story i key runs (.publishing f result) (events ++ [.cleared i f])
  | returned {runs f : Nat} {result : Except ε ν} {events : List (Event κ ν ε)}
    (h : Story i key runs (.publishing f (some result)) events) :
    Story i key runs (.returned result) (events ++ [.published i f (some result)])
  | dropped {runs f : Nat} {events : List (Event κ ν ε)}
    (h : Story i key runs (.publishing f none) events) :
    Story i key runs .dropped (events ++ [.published i f none])

namespace Event

/-- Whether a caller starts its own work. -/
def isStart : Event κ ν ε → Bool
  | started _ _ _ => true
  | called _ _ | joined _ _ | worked _ _ _ | cleared _ _ | published _ _ _ | shared _ _ _
  | missed _ _ | left _ => false

end Event

namespace Story

variable {i f : Nat} {key : κ} {runs : Nat} {phase : Phase ν ε} {events : List (Event κ ν ε)}

theorem runs_eq_countP (h : Story i key runs phase events) :
    runs = events.countP Event.isStart := by
  induction h with
  | called => rfl
  | _ =>
    rename_i ih
    rw [List.countP_append, ← ih]
    rfl

theorem called_mem (h : Story i key runs phase events) : .called i key ∈ events := by
  induction h with
  | called => exact List.mem_cons_self
  | _ => exact List.mem_append_left _ ‹_›

theorem key_eq {key' : κ} (h : Story i key runs phase events) (hCalled : .called i key' ∈ events) :
    key' = key := by
  induction h with
  | called => simpa using hCalled
  | _ =>
    rename_i ih
    exact ih (by simpa using hCalled)

theorem runs_of_idle (h : Story i key runs phase events) (idle : phase.isIdle = true) :
    runs = 0 := by
  induction h with
  | called => rfl
  | joined f h ih => exact ih rfl
  | missed h ih => exact ih rfl
  | _ => cases idle

theorem runs_of_owned (h : Story i key runs phase events) (owned : phase.owned? = some f) :
    runs = 1 := by
  induction h with
  | started g h => rw [h.runs_of_idle rfl]
  | worked result h ih => exact ih owned
  | cleared h ih => exact ih owned
  | _ => cases owned

theorem runs_le_one (h : Story i key runs phase events) : runs ≤ 1 := by
  cases h with
  | called => exact Nat.zero_le 1
  | left idle h => exact Nat.le_succ_of_le (Nat.le_of_eq (h.runs_of_idle idle))
  | joined f h | missed h | shared value h =>
    exact Nat.le_succ_of_le (Nat.le_of_eq (h.runs_of_idle rfl))
  | started f h => exact Nat.le_of_eq (congrArg Nat.succ (h.runs_of_idle rfl))
  | worked result h | cleared h | returned h | dropped h =>
    exact Nat.le_of_eq (h.runs_of_owned rfl)

theorem of_waiting (h : Story i key runs (.waiting f) events) : .joined i f ∈ events := by
  cases h
  simp

theorem of_working (h : Story i key runs (.working f) events) : .started i f key ∈ events := by
  cases h
  simp

theorem of_ending {result : Option (Except ε ν)}
    (h : Story i key runs (.ending f result) events) :
    .started i f key ∈ events ∧ .worked i f result ∈ events := by
  cases h with
  | worked _ h => exact ⟨List.mem_append_left _ h.of_working, by simp⟩

theorem of_publishing {result : Option (Except ε ν)}
    (h : Story i key runs (.publishing f result) events) :
    .started i f key ∈ events ∧ .worked i f result ∈ events := by
  cases h with
  | cleared h =>
    obtain ⟨hStarted, hWorked⟩ := h.of_ending
    exact ⟨List.mem_append_left _ hStarted, List.mem_append_left _ hWorked⟩

/-- A result is that of the caller's own work, or a value that was shared with it. -/
theorem of_returned {result : Except ε ν} (h : Story i key runs (.returned result) events) :
    (∃ f, .started i f key ∈ events ∧ .worked i f (some result) ∈ events) ∨
      ∃ f value, result = .ok value ∧ .joined i f ∈ events ∧ .shared i f value ∈ events := by
  cases h with
  | shared value h =>
    exact .inr ⟨_, value, rfl, List.mem_append_left _ h.of_waiting, by simp⟩
  | returned h =>
    obtain ⟨hStarted, hWorked⟩ := h.of_publishing
    exact .inl ⟨_, List.mem_append_left _ hStarted, List.mem_append_left _ hWorked⟩

theorem of_shared_mem {value : ν} (h : Story i key runs phase events)
    (hShared : .shared i f value ∈ events) : runs = 0 ∧ phase = .returned (.ok value) := by
  induction h with
  | called => simp at hShared
  | shared v h ih =>
    rcases List.mem_append.mp hShared with hShared | hShared
    · cases (ih hShared).2
    · obtain ⟨-, rfl⟩ : f = _ ∧ value = v := by simpa using hShared
      exact ⟨h.runs_of_idle rfl, rfl⟩
  | left idle h ih =>
    obtain ⟨-, rfl⟩ := ih (by simpa using hShared)
    cases idle
  | _ =>
    rename_i ih
    cases (ih (by simpa using hShared)).2

theorem seen_append {e : Event κ ν ε}
    (h : .missed i f ∈ events ∨ ∃ value, .shared i f value ∈ events) :
    .missed i f ∈ events ++ [e] ∨ ∃ value, .shared i f value ∈ events ++ [e] :=
  h.imp (List.mem_append_left _) fun ⟨value, hShared⟩ => ⟨value, List.mem_append_left _ hShared⟩

theorem of_joined_mem (h : Story i key runs phase events) (hJoined : .joined i f ∈ events) :
    runs = 0 ∧ (phase = .waiting f ∨ phase = .dropped) ∨ .missed i f ∈ events ∨
      ∃ value, .shared i f value ∈ events := by
  induction h with
  | called => simp at hJoined
  | joined g h ih =>
    rcases List.mem_append.mp hJoined with hJoined | hJoined
    · have hSeen := ih hJoined
      simp only [reduceCtorEq, or_self, and_false, false_or] at hSeen
      exact .inr (seen_append hSeen)
    · obtain rfl : f = g := by simpa using hJoined
      exact .inl ⟨h.runs_of_idle rfl, .inl rfl⟩
  | left idle h ih => exact .inl ⟨h.runs_of_idle idle, .inr rfl⟩
  | missed h ih =>
    rcases ih (by simpa using hJoined) with ⟨-, hPhase | hPhase⟩ | hSeen
    · cases hPhase
      exact .inr (.inl (by simp))
    · cases hPhase
    · exact .inr (seen_append hSeen)
  | shared value h ih =>
    rcases ih (by simpa using hJoined) with ⟨-, hPhase | hPhase⟩ | hSeen
    · cases hPhase
      exact .inr (.inr ⟨value, by simp⟩)
    · cases hPhase
    · exact .inr (seen_append hSeen)
  | _ =>
    rename_i ih
    have hSeen := ih (by simpa using hJoined)
    simp only [reduceCtorEq, or_self, and_false, false_or] at hSeen
    exact .inr (seen_append hSeen)

end Story

variable [DecidableEq κ]

/-- The story of every caller is that of its own events, and others have none. -/
structure Told (past : List (Event κ ν ε)) (s : SingleFlight κ ν ε) : Prop where
  story : ∀ (i : Nat) (c : Caller κ ν ε), s.callers[i]? = some c →
    Story i c.key c.runs c.phase (past.filter (Event.isBy i))
  unborn : ∀ i, s.callers.length ≤ i → past.filter (Event.isBy i) = []

namespace Told

variable {past : List (Event κ ν ε)} {s t : SingleFlight κ ν ε} {e : Event κ ν ε} {i : Nat}

omit [DecidableEq κ] in
theorem filter_self (h : e.caller = i) :
    (past ++ [e]).filter (Event.isBy i) = past.filter (Event.isBy i) ++ [e] := by
  simp [List.filter_append, Event.isBy, h]

omit [DecidableEq κ] in
theorem filter_of_ne (h : e.caller ≠ i) :
    (past ++ [e]).filter (Event.isBy i) = past.filter (Event.isBy i) := by
  simp [List.filter_append, Event.isBy, h]

/-- Callers that were there before and take no step stand where they stood. -/
theorem getElem?_of_ne (change : Change s e t) (hi : e.caller ≠ i) {c : Caller κ ν ε}
    (found : t.callers[i]? = some c) : s.callers[i]? = some c := by
  cases change with
  | called key =>
    rcases getElem?_call_cases s key found with ⟨rfl, -⟩ | found
    · exact absurd rfl hi
    · exact found
  | left | joined | started | worked | cleared | published | shared | missed =>
    exact (List.getElem?_set_ne hi).symm.trans found

omit [DecidableEq κ] in
theorem eq_of_set {callers : List (Caller κ ν ε)} {c c' d : Caller κ ν ε}
    (found : callers[i]? = some c) (h : (callers.set i c')[i]? = some d) : d = c' := by
  obtain ⟨-, rfl⟩ | ⟨hne, -⟩ := getElem?_set_cases found h
  · rfl
  · exact absurd rfl hne

theorem story_self (h : Told past s) (change : Change s e t) {d : Caller κ ν ε}
    (hd : t.callers[e.caller]? = some d) :
    Story e.caller d.key d.runs d.phase (past.filter (Event.isBy e.caller) ++ [e]) := by
  cases change with
  | called key =>
    rw [Event.caller, h.unborn _ (Nat.le_refl _)]
    rcases getElem?_call_cases s key hd with ⟨-, rfl⟩ | found
    · exact .called
    · exact absurd (List.getElem?_eq_some_iff.mp found).1 (Nat.lt_irrefl _)
  | left found idle =>
    obtain rfl := eq_of_set found hd
    exact .left idle (h.story _ _ found)
  | joined found phase =>
    obtain rfl := eq_of_set found hd
    have hStory := h.story _ _ found
    rw [phase] at hStory
    exact .joined _ hStory
  | started found phase =>
    obtain rfl := eq_of_set found hd
    have hStory := h.story _ _ found
    rw [phase] at hStory
    exact .started _ hStory
  | worked result found phase =>
    obtain rfl := eq_of_set found hd
    have hStory := h.story _ _ found
    rw [phase] at hStory
    exact .worked result hStory
  | cleared found phase =>
    obtain rfl := eq_of_set found hd
    have hStory := h.story _ _ found
    rw [phase] at hStory
    exact .cleared hStory
  | @published _ _ _ result found phase =>
    obtain rfl := eq_of_set found hd
    have hStory := h.story _ _ found
    rw [phase] at hStory
    cases result with
    | none => exact .dropped hStory
    | some result => exact .returned hStory
  | shared found phase =>
    obtain rfl := eq_of_set found hd
    have hStory := h.story _ _ found
    rw [phase] at hStory
    exact .shared _ hStory
  | missed found phase =>
    obtain rfl := eq_of_set found hd
    have hStory := h.story _ _ found
    rw [phase] at hStory
    exact .missed hStory

theorem caller_lt (change : Change s e t) :
    e.caller < t.callers.length ∧ s.callers.length ≤ t.callers.length := by
  cases change with
  | called key => simp [call, Event.caller]
  | left found | joined found | started found | worked _ found | cleared found | published found
  | shared found | missed found =>
    have hlt := (List.getElem?_eq_some_iff.mp found).1
    simp [withPhase, Event.caller, hlt]

theorem step (h : Told past s) (change : Change s e t) : Told (past ++ [e]) t where
  story i d hd := by
    by_cases hi : e.caller = i
    · subst hi
      rw [filter_self rfl]
      exact h.story_self change hd
    · rw [filter_of_ne hi]
      exact h.story i d (getElem?_of_ne change hi hd)
  unborn i hi := by
    obtain ⟨hCaller, hLength⟩ := caller_lt change
    rw [filter_of_ne (by omega)]
    exact h.unborn i (Nat.le_trans hLength hi)

end Told

/-- A caller keeps the result that it has. -/
theorem Change.phase?_of_returned {s t : SingleFlight κ ν ε} {e : Event κ ν ε} {i : Nat}
    {result : Except ε ν} (change : Change s e t) (h : s.phase? i = some (.returned result)) :
    t.phase? i = some (.returned result) := by
  obtain ⟨c, found, hPhase⟩ := Option.map_eq_some_iff.mp h
  suffices hFound : t.callers[i]? = some c by rw [phase?, hFound, ← hPhase]; rfl
  have hOther {j : Nat} {d d' : Caller κ ν ε} (hd : s.callers[j]? = some d)
      (hNot : d.phase ≠ .returned result) : (s.callers.set j d')[i]? = some c := by
    have hIndex : j ≠ i := by
      rintro rfl
      obtain rfl := Option.some.inj (found.symm.trans hd)
      exact hNot hPhase
    exact (List.getElem?_set_ne hIndex).trans found
  cases change with
  | called key =>
    exact (List.getElem?_append_left (List.getElem?_eq_some_iff.mp found).1).trans found
  | left foundThen idle =>
    refine hOther foundThen fun hReturned => ?_
    rw [hReturned] at idle
    cases idle
  | joined foundThen phase | started foundThen phase | worked _ foundThen phase
  | cleared foundThen phase | published foundThen phase | shared foundThen phase
  | missed foundThen phase => exact hOther foundThen (by rw [phase]; exact nofun)

theorem Run.told {past : List (Event κ ν ε)} {s : SingleFlight κ ν ε} (h : Run past s) :
    Told past s := by
  refine h.induct ⟨?_, ?_⟩ fun _ _ _ _ _ ih change => ih.step change
  · intro i c found
    cases found
  · intro i _
    rfl

end Enrollment.SingleFlight
