import Enrollment.Proofs.Fulfilment.Aggregation
import Enrollment.Proofs.Fulfilment.Helpers

/-! # Calls with the work on their tasks

The calls of a fulfiller, with every call that is made in the work on their tasks and its answer.
Work ends with the result that it has come to, and with no other.
-/

namespace Enrollment

open Authorizations Procedure

structure Attended where
  fulfilment : Fulfilment
  /-- Who works on the tasks of all callers. -/
  helpers : List Helper

namespace Attended

def new : Attended := ⟨.new, []⟩

inductive Move where
  | call (m : Fulfilment.Move)
  | help (caller : Nat) (answers : (c : IssuerCall) → c.Answer)

def move? (solver : Solver) (s : Attended) : Move → Option Attended
  | .call m => (s.fulfilment.move? m).map fun fulfilment => {
      fulfilment
      helpers := s.helpers ++ (fulfilment.tasks.drop s.helpers.length).map (.new solver) }
  | .help caller answers =>
    s.helpers[caller]?.bind fun helper =>
      (helper.goOn? s.fulfilment.fulfiller.flights caller answers).map fun helper =>
        { s with helpers := s.helpers.set caller helper }

/-- Whether work that ends has come to its result. -/
def Sound (s : Attended) : Move → Prop
  | .call (.step caller step) =>
    ∀ helper, s.helpers[caller]? = some helper → helper.Admits step
  | .call _ | .help _ _ => True

inductive Reachable (solver : Solver) : Attended → Prop where
  | new : Reachable solver new
  | move {s t : Attended} (m : Move) (h : Reachable solver s) (sound : s.Sound m)
    (moves : s.move? solver m = some t) : Reachable solver t

def Comes (helpers : List Helper) (caller : Nat) (result : Result) : Prop :=
  ∃ helper, helpers[caller]? = some helper ∧ helper.work.rest = .done result

/-- Each caller has a helper that has done nothing but the work on its task, and whoever has ended
its work has the result of its helper. -/
structure Tended (solver : Solver) (s : Attended) : Prop where
  reachable : Fulfilment.Reachable solver s.fulfilment
  tasks : s.helpers.map Helper.task = s.fulfilment.tasks
  works : ∀ helper ∈ s.helpers, helper.Works solver
  worked : s.fulfilment.fulfiller.flights.WorksTo (Comes s.helpers)

variable {solver : Solver} {s t : Attended}

theorem Comes.append {helpers : List Helper} {caller : Nat} {result : Result}
    (h : Comes helpers caller result) (more : List Helper) :
    Comes (helpers ++ more) caller result := by
  obtain ⟨helper, found, done⟩ := h
  exact ⟨helper, getElem?_append_of_some more found, done⟩

theorem Comes.set {helpers : List Helper} {flights : AuthorizationFlights} {i caller : Nat}
    {helper helper' : Helper} {answers : (c : IssuerCall) → c.Answer} {result : Result}
    (h : Comes helpers caller result) (found : helpers[i]? = some helper)
    (moves : helper.goOn? flights i answers = some helper') :
    Comes (helpers.set i helper') caller result := by
  obtain ⟨own, foundOwn, done⟩ := h
  by_cases hSame : i = caller
  · -- Who has come to a result makes no more calls, so that it is not this helper that goes on.
    subst hSame
    cases found.symm.trans foundOwn
    obtain ⟨-, work, hWork, -⟩ := Helper.goOn?_eq_some moves
    rw [Progress.answer?_of_done done] at hWork
    cases hWork
  · exact ⟨own, by rwa [List.getElem?_set_ne hSame], done⟩

/-! ### What a move can do -/

theorem exists_tasks_of_change {f f' : Fulfilment} {m : Fulfilment.Move}
    (change : Fulfilment.Change f m f') : ∃ more, f'.tasks = f.tasks ++ more := by
  cases change with
  | all | stepped | left | joined | notified => exact ⟨[], (List.append_nil _).symm⟩
  | single task => exact ⟨[task], rfl⟩
  | @started i call tasks => exact ⟨tasks, rfl⟩

theorem worksTo_of_change {f f' : Fulfilment} {m : Fulfilment.Move} {good : Nat → Result → Prop}
    (h : f.fulfiller.flights.WorksTo good) (change : Fulfilment.Change f m f')
    (finish : ∀ caller result, m = .step caller (.finish result) → good caller result) :
    f'.fulfiller.flights.WorksTo good := by
  cases change with
  | all | left | joined | notified => exact h
  | single task => exact h.call task.url
  | stepped moves =>
    refine h.step (fun result hStep => ?_) moves
    exact finish _ result (congrArg _ hStep)
  | started found rest => exact h.callAll _

namespace Tended

theorem new (solver : Solver) : Tended solver new where
  reachable := .new
  tasks := rfl
  works _ hMem := absurd hMem List.not_mem_nil
  worked := .empty _

theorem exists_task (h : Tended solver s) {caller : Nat} {helper : Helper}
    (found : s.helpers[caller]? = some helper) :
    s.fulfilment.tasks[caller]? = some helper.task := by
  rw [← h.tasks, List.getElem?_map, found]
  rfl

theorem exists_helper (h : Tended solver s) {caller : Nat} {task : AuthorizationTask}
    (hTask : s.fulfilment.tasks[caller]? = some task) :
    ∃ helper, s.helpers[caller]? = some helper ∧ helper.task = task := by
  rw [← h.tasks, List.getElem?_map] at hTask
  exact Option.map_eq_some_iff.mp hTask

theorem call (h : Tended solver s) {m : Fulfilment.Move} (sound : s.Sound (.call m))
    {fulfilment : Fulfilment} (moves : s.fulfilment.move? m = some fulfilment) :
    Tended solver ⟨fulfilment,
      s.helpers ++ (fulfilment.tasks.drop s.helpers.length).map (.new solver)⟩ := by
  have change := Fulfilment.change_of_move? moves
  obtain ⟨more, hMore⟩ := exists_tasks_of_change change
  have hLength : s.helpers.length = s.fulfilment.tasks.length := by
    rw [← h.tasks, List.length_map]
  have hNew : fulfilment.tasks.drop s.helpers.length = more := by
    rw [hMore, hLength, List.drop_left]
  have finished : ∀ caller result, m = .step caller (.finish result) →
      Comes s.helpers caller result := by
    rintro caller result rfl
    obtain ⟨task, hTask⟩ := h.reachable.coherent.exists_task moves
    obtain ⟨helper, found, -⟩ := h.exists_helper hTask
    exact ⟨helper, found, sound helper found⟩
  rw [hNew]
  constructor
  · -- What the helper has done is the work that the result has to come from.
    refine .move m h.reachable (Fulfilment.sound_of_finish fun caller result hMove => ?_) moves
    obtain ⟨helper, found, done⟩ := finished caller result hMove
    have works := h.works helper (List.mem_of_getElem? found)
    rw [Helper.Works, done] at works
    exact ⟨helper.task, h.exists_task found, _, works⟩
  · rw [List.map_append, h.tasks, hMore, List.map_map]
    exact congrArg _ (List.map_id more)
  · intro helper hMem
    rcases List.mem_append.mp hMem with hOld | hNew
    · exact h.works helper hOld
    · obtain ⟨task, -, rfl⟩ := List.mem_map.mp hNew
      exact Helper.works_new solver task
  · exact (worksTo_of_change h.worked change finished).mono fun _ _ comes => comes.append _

theorem help (h : Tended solver s) {caller : Nat} {helper helper' : Helper}
    {answers : (c : IssuerCall) → c.Answer} (found : s.helpers[caller]? = some helper)
    (moves : helper.goOn? s.fulfilment.fulfiller.flights caller answers = some helper') :
    Tended solver { s with helpers := s.helpers.set caller helper' } := by
  obtain ⟨works, hTask⟩ := (h.works helper (List.mem_of_getElem? found)).goOn moves
  constructor
  · exact h.reachable
  · obtain ⟨hlt, hOwn⟩ := List.getElem?_eq_some_iff.mp (h.exists_task found)
    rw [List.map_set, hTask, h.tasks, ← hOwn]
    exact List.set_getElem_self hlt
  · intro other hMem
    rcases List.mem_or_eq_of_mem_set hMem with hOld | rfl
    · exact h.works other hOld
    · exact works
  · exact h.worked.mono fun _ _ comes => comes.set found moves

theorem step (h : Tended solver s) {m : Move} (sound : s.Sound m)
    (moves : s.move? solver m = some t) : Tended solver t := by
  cases m with
  | call m =>
    obtain ⟨fulfilment, hMove, rfl⟩ := Option.map_eq_some_iff.mp moves
    exact h.call sound hMove
  | help caller answers =>
    obtain ⟨helper, found, hHelps⟩ := Option.bind_eq_some_iff.mp moves
    obtain ⟨helper', hGoes, rfl⟩ := Option.map_eq_some_iff.mp hHelps
    exact h.help found hGoes

end Tended

theorem Reachable.tended (h : Reachable solver s) : Tended solver s := by
  induction h with
  | new => exact .new solver
  | move m h sound moves ih => exact ih.step sound moves

end Attended

end Enrollment
