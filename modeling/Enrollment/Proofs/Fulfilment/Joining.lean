import Mathlib.Data.List.Perm.Basic
import Enrollment.Proofs.Fulfilment.History

/-! # How calls join their tasks

A call that has started its tasks has joined the ends of some of them. Those of the others are with
its group, or have not come. No two calls have a group in common, so that what a call has not joined
is there for it, whatever the others do.
-/

namespace Enrollment

open Authorizations

/-! ### New callers -/

namespace SingleFlight

variable {κ ν ε : Type}

theorem callAll_callers (s : SingleFlight κ ν ε) (keys : List κ) :
    (s.callAll keys).1.callers = s.callers ++ keys.map fun key => ⟨key, 0, .starting⟩ := by
  induction keys generalizing s with
  | nil => exact (List.append_nil _).symm
  | cons key keys ih =>
    rw [List.map_cons, List.append_cons]
    exact ih (s.call key).1

theorem callAll_numbers (s : SingleFlight κ ν ε) (keys : List κ) :
    (s.callAll keys).2 = List.range' s.callers.length keys.length := by
  induction keys generalizing s with
  | nil => rfl
  | cons key keys ih =>
    have hLength : (s.call key).1.callers.length = s.callers.length + 1 := List.length_append
    rw [List.length_cons, List.range'_succ, ← hLength, ← ih]
    rfl

theorem ending?_append {s t : SingleFlight κ ν ε} {caller : Nat} {result : Option (Except ε ν)}
    {more : List (Caller κ ν ε)} (hCallers : t.callers = s.callers ++ more)
    (h : s.ending? caller = some result) : t.ending? caller = some result := by
  obtain ⟨phase, hPhase, -⟩ := Option.bind_eq_some_iff.mp h
  obtain ⟨c, found, -⟩ := Option.map_eq_some_iff.mp hPhase
  rwa [ending?_of_callers (s := s)]
  rw [hCallers, List.getElem?_append_left (List.getElem?_eq_some_iff.mp found).1]

end SingleFlight

theorem map_getElem?_range' {α : Type} (front back : List α) :
    (List.range' front.length back.length).map (fun i => (front ++ back)[i]?) = back.map some := by
  refine List.ext_getElem? fun i => ?_
  by_cases hi : i < back.length
  · simp [hi]
  · simp [hi]

namespace Fulfilment

variable {solver : Solver} {s t : Fulfilment} {m : Move} {call : FulfillCall} {g : Nat}

/-- What has come to be stays so: the ends of callers, and what their tasks are. -/
structure Kept (s t : Fulfilment) : Prop where
  ending : ∀ caller ending, s.fulfiller.ending? caller = some ending →
    t.fulfiller.ending? caller = some ending
  task : ∀ (caller : Nat) (task : AuthorizationTask), s.tasks[caller]? = some task →
    t.tasks[caller]? = some task

theorem Kept.refl (s : Fulfilment) : Kept s s := ⟨fun _ _ h => h, fun _ _ h => h⟩

theorem Kept.trans {u : Fulfilment} (h : Kept s t) (hNext : Kept t u) : Kept s u where
  ending caller ending hEnding := hNext.ending caller ending (h.ending caller ending hEnding)
  task caller task hTask := hNext.task caller task (h.task caller task hTask)

theorem Change.kept (change : Change s m t) : Kept s t := by
  cases change with
  | all | left | joined | notified => exact ⟨fun _ _ h => h, fun _ _ h => h⟩
  | single task =>
    exact ⟨fun _ _ h => SingleFlight.ending?_append rfl h,
      fun _ _ h => getElem?_append_of_some _ h⟩
  | stepped moves => exact ⟨fun _ _ h => SingleFlight.ending?_of_step? moves h, fun _ _ h => h⟩
  | started found rest =>
    refine ⟨fun _ _ h => ?_, fun _ _ h => getElem?_append_of_some _ h⟩
    exact SingleFlight.ending?_append (SingleFlight.callAll_callers _ _) h

/-! ### What a call has yet to do -/

/-- What is left of a call that has joined some ends. -/
def remaining (g : Nat) (joined : List TaskEnd) (count : Nat) : Work Result :=
  (joinAll g count).bind fun results => .done (combine (joined.map resultOf ++ results))

/-- The call is to join so many ends, possibly after it has told of a failure. -/
def Remains (g : Nat) (joined : List TaskEnd) (count : Nat) (rest : Work Result) : Prop :=
  rest = remaining g joined count ∨
    ∃ notice, rest = .call (.notify notice) fun _ => remaining g joined count

theorem remaining_zero (g : Nat) (joined : List TaskEnd) :
    remaining g joined 0 = .done (combine (joined.map resultOf)) := by
  show Procedure.done (combine (joined.map resultOf ++ [])) = _
  rw [List.append_nil]

theorem remaining_succ (g : Nat) (joined : List TaskEnd) (count : Nat) :
    ∃ next, remaining g joined (count + 1) = .call (.join g) next ∧
      ∀ ending, Remains g (joined ++ [ending]) count (next ending) := by
  refine ⟨_, rfl, fun ending => ?_⟩
  have hRest : ((joinAll g count).bind fun others =>
      .done (resultOf ending :: others)).bind (fun results =>
        .done (combine (joined.map resultOf ++ results))) =
      remaining g (joined ++ [ending]) count := by
    rw [Procedure.bind_assoc, remaining, List.map_append]
    simp only [Procedure.done_bind, List.append_assoc, List.map_cons, List.map_nil,
      List.singleton_append]
  dsimp only [Procedure.done_bind]
  split
  · exact .inr ⟨_, congrArg _ (funext fun _ => hRest)⟩
  · exact .inl hRest

theorem fulfill_eq (tasks : List AuthorizationTask) :
    fulfill tasks = .call (.start tasks) fun g => remaining g [] tasks.length := rfl

/-- What a call does next. -/
theorem Remains.cases {joined : List TaskEnd} {count : Nat} {rest : Work Result}
    (h : Remains g joined count rest) :
    (count = 0 ∧ rest = .done (combine (joined.map resultOf))) ∨
      (∃ left next, count = left + 1 ∧ rest = .call (.join g) next ∧
        ∀ ending, Remains g (joined ++ [ending]) left (next ending)) ∨
      ∃ notice, rest = .call (.notify notice) fun _ => remaining g joined count := by
  rcases h with rfl | hNotify
  · cases count with
    | zero => exact .inl ⟨rfl, remaining_zero g joined⟩
    | succ left =>
      obtain ⟨next, hJoin, hNext⟩ := remaining_succ g joined left
      exact .inr (.inl ⟨left, next, rfl, hJoin, hNext⟩)
  · exact .inr (.inr hNotify)

/-! ### Where a call stands -/

/-- A call has started its tasks and joined some ends. Those that it has not joined are in its
group, in the order in which they came. -/
structure Joining (s : Fulfilment) (call : FulfillCall) (g : Nat) (group : TaskGroup)
    (joined : List TaskEnd) : Prop where
  group? : call.group? = some g
  found : s.fulfiller.groups[g]? = some group
  tasks : call.callers.map (fun caller => s.tasks[caller]?) = call.tasks.map some
  accounted : ∃ order : List Nat, (group.running ++ order).Perm call.callers ∧
    order.map s.fulfiller.ending? = (joined ++ group.ended).map some
  remains : Remains g joined (call.tasks.length - joined.length) call.rest

inductive Standing (s : Fulfilment) : FulfillCall → Prop where
  | coming (tasks : List AuthorizationTask) : Standing s ⟨tasks, none, [], fulfill tasks⟩
  | joining {call : FulfillCall} {g : Nat} {group : TaskGroup} {joined : List TaskEnd}
    (h : Joining s call g group joined) : Standing s call

theorem map_eq_of_imp {α β : Type} {keys : List α} {values : List β} {f f' : α → Option β}
    (h : keys.map f = values.map some) (hImp : ∀ k v, f k = some v → f' k = some v) :
    keys.map f' = values.map some := by
  rw [← h]
  refine List.map_congr_left fun k hMem => ?_
  obtain ⟨v, -, hv⟩ := List.mem_map.mp (h ▸ List.mem_map_of_mem (f := f) hMem)
  rw [← hv]
  exact hImp k v hv.symm

namespace Joining

variable {group : TaskGroup} {joined : List TaskEnd}

theorem of_kept (h : Joining s call g group joined) (kept : Kept s t)
    (same : t.fulfiller.groups[g]? = s.fulfiller.groups[g]?) : Joining t call g group joined where
  group? := h.group?
  found := same.trans h.found
  tasks := map_eq_of_imp h.tasks kept.task
  accounted := by
    obtain ⟨order, hPerm, hEnds⟩ := h.accounted
    exact ⟨order, hPerm, map_eq_of_imp hEnds kept.ending⟩
  remains := h.remains

theorem withCall (h : Joining s call g group joined) (i : Nat) (other : FulfillCall) :
    Joining (s.withCall i other) call g group joined :=
  h.of_kept ⟨fun _ _ h => h, fun _ _ h => h⟩ rfl

theorem length_eq (h : Joining s call g group joined) :
    group.running.length + joined.length + group.ended.length = call.tasks.length := by
  obtain ⟨order, hPerm, hEnds⟩ := h.accounted
  have hCallers := congrArg List.length h.tasks
  have hOrder := congrArg List.length hEnds
  have hParts := hPerm.length_eq
  simp only [List.length_map, List.length_append] at hCallers hOrder hParts
  omega

/-- The tasks that have ended have left their ends with the group. -/
theorem of_left (h : Joining s call g group joined) {caller : Nat} {ending : TaskEnd}
    (ended : s.fulfiller.ending? caller = some ending) (mem : caller ∈ group.running) :
    let left : TaskGroup := ⟨group.running.erase caller, group.ended ++ [ending]⟩
    Joining { s with fulfiller := s.fulfiller.withGroup g left } call g left joined where
  group? := h.group?
  found := getElem?_set_of_found h.found _
  tasks := h.tasks
  accounted := by
    obtain ⟨order, hPerm, hEnds⟩ := h.accounted
    have hMoved : (group.running.erase caller ++ order ++ [caller]).Perm (group.running ++ order) :=
      (List.perm_append_singleton _ _).trans ((List.perm_cons_erase mem).symm.append_right order)
    refine ⟨order ++ [caller], ?_, ?_⟩
    · rw [← List.append_assoc]
      exact hMoved.trans hPerm
    · have hLast : [caller].map s.fulfiller.ending? = [ending].map some := by
        rw [List.map_singleton, List.map_singleton, ended]
      rw [← List.append_assoc, List.map_append, List.map_append, ← hEnds, ← hLast]
      rfl
  remains := h.remains

/-- A call joins the ends of its own group. -/
theorem of_join (h : Joining s call g group joined) {g' : Nat} {next : TaskEnd → Work Result}
    (rest : call.rest = .call (.join g') next) :
    g' = g ∧ ∃ left, call.tasks.length - joined.length = left + 1 ∧
      ∀ ending, Remains g (joined ++ [ending]) left (next ending) := by
  rcases h.remains.cases with ⟨-, hDone⟩ | ⟨left, next', hLeft, hJoin, hNext⟩ | ⟨notice, hNotify⟩
  · cases rest.symm.trans hDone
  · cases rest.symm.trans hJoin
    exact ⟨rfl, left, hLeft, hNext⟩
  · cases rest.symm.trans hNotify

theorem of_joined (h : Joining s call g group joined) {next : TaskEnd → Work Result}
    {running : List Nat} {ending : TaskEnd} {ended : List TaskEnd}
    (rest : call.rest = .call (.join g) next)
    (found : s.fulfiller.groups[g]? = some ⟨running, ending :: ended⟩) :
    Joining { s with fulfiller := s.fulfiller.withGroup g ⟨running, ended⟩ }
      { call with rest := next ending } g ⟨running, ended⟩ (joined ++ [ending]) where
  group? := h.group?
  found := getElem?_set_of_found found _
  tasks := h.tasks
  accounted := by
    obtain rfl := Option.some.inj (found.symm.trans h.found)
    obtain ⟨order, hPerm, hEnds⟩ := h.accounted
    refine ⟨order, hPerm, hEnds.trans ?_⟩
    rw [List.append_assoc, List.singleton_append]
  remains := by
    obtain ⟨-, left, hLeft, hNext⟩ := h.of_join rest
    have hCount : call.tasks.length - (joined ++ [ending]).length = left := by
      rw [List.length_append, List.length_singleton]
      omega
    rw [hCount]
    exact hNext ending

theorem of_notified (h : Joining s call g group joined) {notice : Notice}
    {next : Unit → Work Result} (rest : call.rest = .call (.notify notice) next) :
    Joining s { call with rest := next () } g group joined := by
  rcases h.remains.cases with ⟨-, hDone⟩ | ⟨_, _, _, hJoin, _⟩ | ⟨notice, hNotify⟩
  · cases rest.symm.trans hDone
  · cases rest.symm.trans hJoin
  · cases rest.symm.trans hNotify
    exact ⟨h.group?, h.found, h.tasks, h.accounted, .inl rfl⟩

theorem not_start (h : Joining s call g group joined) {tasks : List AuthorizationTask}
    {next : Nat → Work Result} : call.rest ≠ .call (.start tasks) next := by
  intro rest
  rcases h.remains.cases with ⟨-, hDone⟩ | ⟨_, _, _, hJoin, _⟩ | ⟨notice, hNotify⟩
  · cases rest.symm.trans hDone
  · cases rest.symm.trans hJoin
  · cases rest.symm.trans hNotify

end Joining

theorem joining_of_start (sourced : Sourced solver s.fulfiller.flights s.tasks)
    (tasks : List AuthorizationTask) :
    let g := s.fulfiller.groups.length
    let callers := (s.fulfiller.start tasks).2.2
    Joining { s with fulfiller := (s.fulfiller.start tasks).1, tasks := s.tasks ++ tasks }
      ⟨tasks, some g, callers, remaining g [] tasks.length⟩ g ⟨callers, []⟩ [] where
  group? := rfl
  found := List.getElem?_concat_length
  tasks := by
    have hCallers : (s.fulfiller.start tasks).2.2 = List.range' s.tasks.length tasks.length := by
      have hNumbers := SingleFlight.callAll_numbers s.fulfiller.flights
        (tasks.map AuthorizationTask.url)
      rwa [List.length_map, sourced.length_eq] at hNumbers
    rw [hCallers]
    exact map_getElem?_range' s.tasks tasks
  accounted := ⟨[], by rw [List.append_nil], rfl⟩
  remains := .inl rfl

namespace Standing

theorem of_kept (h : Standing s call) (kept : Kept s t)
    (same : ∀ g, call.group? = some g → t.fulfiller.groups[g]? = s.fulfiller.groups[g]?) :
    Standing t call := by
  cases h with
  | coming tasks => exact .coming tasks
  | joining h => exact .joining (h.of_kept kept (same _ h.group?))

theorem withCall (h : Standing s call) (i : Nat) (other : FulfillCall) :
    Standing (s.withCall i other) call :=
  h.of_kept ⟨fun _ _ h => h, fun _ _ h => h⟩ fun _ _ => rfl

theorem exists_joining (h : Standing s call) (hGroup : call.group? = some g) :
    ∃ group joined, Joining s call g group joined := by
  cases h with
  | coming => cases hGroup
  | joining h =>
    cases hGroup.symm.trans h.group?
    exact ⟨_, _, h⟩

theorem of_join (h : Standing s call) {next : TaskEnd → Work Result}
    (rest : call.rest = .call (.join g) next) : ∃ group joined, Joining s call g group joined := by
  cases h with
  | coming => cases rest
  | joining h =>
    obtain ⟨rfl, -⟩ := h.of_join rest
    exact ⟨_, _, h⟩

theorem eq_of_start (h : Standing s call) {tasks : List AuthorizationTask}
    {next : Nat → Work Result} (rest : call.rest = .call (.start tasks) next) :
    call = ⟨tasks, none, [], fulfill tasks⟩ ∧ next = fun g => remaining g [] tasks.length := by
  cases h with
  | coming =>
    cases rest
    exact ⟨rfl, rfl⟩
  | joining h => exact absurd rest h.not_start

theorem notified (h : Standing s call) {notice : Notice} {next : Unit → Work Result}
    (rest : call.rest = .call (.notify notice) next) :
    Standing s { call with rest := next () } := by
  cases h with
  | coming => cases rest
  | joining h => exact .joining (h.of_notified rest)

theorem lt_of_group? (h : Standing s call) (hGroup : call.group? = some g) :
    g < s.fulfiller.groups.length := by
  obtain ⟨group, joined, hJoining⟩ := h.exists_joining hGroup
  exact (List.getElem?_eq_some_iff.mp hJoining.found).1

end Standing

/-! ### All calls -/

structure Coherent (solver : Solver) (s : Fulfilment) : Prop where
  sourced : Sourced solver s.fulfiller.flights s.tasks
  standing : ∀ (i : Nat) (call : FulfillCall), s.calls[i]? = some call → Standing s call
  apart : ∀ (i j : Nat) (a b : FulfillCall) (g : Nat), s.calls[i]? = some a →
    s.calls[j]? = some b → a.group? = some g → b.group? = some g → i = j

namespace Coherent

theorem new (solver : Solver) : Coherent solver Fulfilment.new where
  sourced := ⟨rfl, SingleFlight.WorksTo.empty _⟩
  standing _ _ found := nomatch found
  apart _ _ _ _ _ found := nomatch found

theorem sourced_step (h : Coherent solver s) (sound : s.Sound solver m) (change : Change s m t) :
    Sourced solver t.fulfiller.flights t.tasks := by
  cases change with
  | all | left | joined | notified => exact h.sourced
  | single task => exact h.sourced.call task
  | stepped moves =>
    refine h.sourced.step (fun result hStep => ?_) moves
    subst hStep
    exact sound
  | started found rest => exact h.sourced.callAll _

/-- A call that does not go on stands as it did, but that ends may have come to its group. -/
theorem standing_other (h : Coherent solver s) (change : Change s m t) {j : Nat} {d : FulfillCall}
    (found : s.calls[j]? = some d) (hOther : m ≠ .goOn j) : Standing t d := by
  have standing := h.standing j d found
  have kept := change.kept
  cases change with
  | all | single | stepped | notified =>
    exact standing.of_kept kept fun _ _ => rfl
  | @left g caller group ending foundGroup ended mem =>
    by_cases hGroup : d.group? = some g
    · obtain ⟨group', joined, hJoining⟩ := standing.exists_joining hGroup
      cases hJoining.found.symm.trans foundGroup
      exact .joining (hJoining.of_left ended mem)
    · refine standing.of_kept kept fun g' hOwn => List.getElem?_set_ne ?_
      rintro rfl
      exact hGroup hOwn
  | started =>
    refine standing.of_kept kept fun g' hOwn => ?_
    exact List.getElem?_append_left (standing.lt_of_group? hOwn)
  | @joined i g call next running ending ended foundCall rest foundGroup =>
    obtain ⟨group, joined, hJoining⟩ := (h.standing i call foundCall).of_join rest
    refine standing.of_kept kept fun g' hOwn => List.getElem?_set_ne ?_
    rintro rfl
    obtain rfl := h.apart i j call d _ foundCall found hJoining.group? hOwn
    exact hOther rfl

theorem standing_step (h : Coherent solver s) (change : Change s m t) (j : Nat) (d : FulfillCall)
    (found : t.calls[j]? = some d) : Standing t d := by
  have hOther {k : Nat} {c : FulfillCall} (found : s.calls[k]? = some c) (hMove : m ≠ .goOn k) :
      Standing t c := h.standing_other change found hMove
  cases change with
  | all tasks =>
    rcases getElem?_concat_cases found with rfl | found
    · exact .coming tasks
    · exact hOther found nofun
  | single | stepped | left => exact hOther found nofun
  | @started i call tasks next foundCall rest =>
    obtain ⟨rfl, rfl⟩ | ⟨hne, found⟩ := getElem?_set_cases foundCall found
    · obtain ⟨rfl, rfl⟩ := (h.standing _ call foundCall).eq_of_start rest
      exact (Standing.joining (joining_of_start h.sourced tasks)).withCall _ _
    · exact hOther found fun hMove => hne (Move.goOn.inj hMove).symm
  | @joined i g call next running ending ended foundCall rest foundGroup =>
    obtain ⟨rfl, rfl⟩ | ⟨hne, found⟩ := getElem?_set_cases foundCall found
    · obtain ⟨group, joined, hJoining⟩ := (h.standing _ call foundCall).of_join rest
      exact (Standing.joining (hJoining.of_joined rest foundGroup)).withCall _ _
    · exact hOther found fun hMove => hne (Move.goOn.inj hMove).symm
  | @notified i call notice next foundCall rest =>
    obtain ⟨rfl, rfl⟩ | ⟨hne, found⟩ := getElem?_set_cases foundCall found
    · exact ((h.standing _ call foundCall).notified rest).withCall _ _
    · exact hOther found fun hMove => hne (Move.goOn.inj hMove).symm

/-- A call of which the group is known had it before, or has just started its tasks. -/
theorem group?_step (change : Change s m t) {j : Nat} {d : FulfillCall}
    {g : Nat} (found : t.calls[j]? = some d) (hGroup : d.group? = some g) :
    (∃ c, s.calls[j]? = some c ∧ c.group? = some g) ∨
      m = .goOn j ∧ g = s.fulfiller.groups.length := by
  cases change with
  | all tasks =>
    rcases getElem?_concat_cases found with rfl | found
    · cases hGroup
    · exact .inl ⟨d, found, hGroup⟩
  | single | stepped | left => exact .inl ⟨d, found, hGroup⟩
  | started foundCall rest =>
    obtain ⟨rfl, rfl⟩ | ⟨-, found⟩ := getElem?_set_cases foundCall found
    · cases hGroup
      exact .inr ⟨rfl, rfl⟩
    · exact .inl ⟨d, found, hGroup⟩
  | joined foundCall rest | notified foundCall rest =>
    obtain ⟨rfl, rfl⟩ | ⟨-, found⟩ := getElem?_set_cases foundCall found
    · exact .inl ⟨_, foundCall, hGroup⟩
    · exact .inl ⟨d, found, hGroup⟩

theorem apart_step (h : Coherent solver s) (change : Change s m t) (i j : Nat) (a b : FulfillCall)
    (g : Nat) (hi : t.calls[i]? = some a) (hj : t.calls[j]? = some b) (ha : a.group? = some g)
    (hb : b.group? = some g) : i = j := by
  rcases group?_step change hi ha with ⟨c, hc, hcGroup⟩ | ⟨hMove, rfl⟩ <;>
    rcases group?_step change hj hb with ⟨d, hd, hdGroup⟩ | ⟨hMove', hFresh⟩
  · exact h.apart i j c d g hc hd hcGroup hdGroup
  · have hlt := (h.standing i c hc).lt_of_group? hcGroup
    omega
  · have hlt := (h.standing j d hd).lt_of_group? hdGroup
    omega
  · exact Move.goOn.inj (hMove.symm.trans hMove')

theorem step (h : Coherent solver s) (sound : s.Sound solver m) (change : Change s m t) :
    Coherent solver t where
  sourced := h.sourced_step sound change
  standing := h.standing_step change
  apart := h.apart_step change

end Coherent

theorem Reachable.coherent (h : Reachable solver s) : Coherent solver s := by
  induction h with
  | new => exact .new solver
  | move m h sound moves ih => exact ih.step sound (change_of_move? moves)

end Fulfilment

end Enrollment
