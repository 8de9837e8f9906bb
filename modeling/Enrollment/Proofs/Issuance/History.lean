import Enrollment.Proofs.Fulfilment.Helpers
import Enrollment.Proofs.Lookup

/-! # Errands of an issuer

Orders are placed and processed at any time, each as an errand of its own. What an errand asks for
is answered as it may be; the tasks that it starts come to the fulfiller that all errands share, and
are worked on while the errands go on, in any order.
-/

namespace Enrollment

open Procedure

inductive Goal where
  | place (certificate : Int)
  | process (polling : Polling) (order : Int)

namespace Goal

abbrev Result : Goal → Type
  | place _ => Except JobError Int
  | process _ _ => Except JobError Outcome

def work : (goal : Goal) → Work goal.Result
  | place certificate => (Job.place certificate).run
  | process polling order => Job.process polling order

end Goal

structure Errand where
  goal : Goal
  work : Progress IssuerCall.Answer goal.Result

/-- The errand has done nothing but the work on its goal. -/
def Errand.Works (errand : Errand) : Prop :=
  Leads errand.goal.work errand.work.past errand.work.rest

structure Issuance where
  fulfiller : Fulfiller
  /-- The helpers of all callers of the fulfiller, each with the errand that started its task. -/
  helpers : List (Nat × Helper)
  errands : List Errand

def IssuerCall.tasks : IssuerCall → List AuthorizationTask
  | start tasks => tasks
  | _ => []

/-- The answer to a call. The fulfiller answers the calls that are for it. -/
def Fulfiller.serve? (fulfiller : Fulfiller) (answers : (c : IssuerCall) → c.Answer) :
    (c : IssuerCall) → Option (c.Answer × Fulfiller)
  | .start tasks => some ((fulfiller.start tasks).2.1, (fulfiller.start tasks).1)
  | .join group => fulfiller.join? group
  | c => some (answers c, fulfiller)

namespace Issuance

def new : Issuance := ⟨.empty, [], []⟩

inductive Move where
  | add (goal : Goal)
  | goOn (errand : Nat) (answers : (c : IssuerCall) → c.Answer)
  | help (caller : Nat) (answers : (c : IssuerCall) → c.Answer)
  | step (caller : Nat) (step : SingleFlight.Step AuthorizationStatus FulfillError)
  | leave (group caller : Nat)

def goOn? (solver : Solver) (s : Issuance) (i : Nat) (answers : (c : IssuerCall) → c.Answer) :
    Errand → Option Issuance
  | ⟨_, _, .done _⟩ => none
  | ⟨goal, past, .call c next⟩ =>
    (s.fulfiller.serve? answers c).map fun (answer, fulfiller) => {
      fulfiller
      helpers := s.helpers ++ c.tasks.map fun task => (i, .new solver task)
      errands := s.errands.set i ⟨goal, past ++ [⟨c, answer⟩], next answer⟩ }

def move? (solver : Solver) (s : Issuance) : Move → Option Issuance
  | .add goal => some { s with errands := s.errands ++ [⟨goal, .start goal.work⟩] }
  | .goOn i answers => s.errands[i]?.bind fun errand => s.goOn? solver i answers errand
  | .help caller answers =>
    s.helpers[caller]?.bind fun (i, helper) =>
      (helper.goOn? s.fulfiller.flights caller answers).map fun helper =>
        { s with helpers := s.helpers.set caller (i, helper) }
  | .step caller step =>
    (s.fulfiller.step? caller step).map fun fulfiller => { s with fulfiller }
  | .leave group caller =>
    (s.fulfiller.leave? group caller).map fun fulfiller => { s with fulfiller }

/-- Whether work that ends has come to its result. -/
def Sound (s : Issuance) : Move → Prop
  | .step caller step => ∀ i helper, s.helpers[caller]? = some (i, helper) → helper.Admits step
  | .add _ | .goOn _ _ | .help _ _ | .leave _ _ => True

inductive Reachable (solver : Solver) : Issuance → Prop where
  | new : Reachable solver new
  | move {s t : Issuance} (m : Move) (h : Reachable solver s) (sound : s.Sound m)
    (moves : s.move? solver m = some t) : Reachable solver t

/-! ### What a move can do -/

/-- All that a move can do to errands and helpers. -/
inductive Change (solver : Solver) (s : Issuance) : Issuance → Prop where
  | added (goal : Goal) :
    Change solver s { s with errands := s.errands ++ [⟨goal, .start goal.work⟩] }
  | went {i : Nat} {goal : Goal} {past : List (Turn IssuerCall.Answer)} {c : IssuerCall}
    {next : c.Answer → Work goal.Result} (found : s.errands[i]? = some ⟨goal, past, .call c next⟩)
    (answer : c.Answer) (fulfiller : Fulfiller) :
    Change solver s {
      fulfiller
      helpers := s.helpers ++ c.tasks.map fun task => (i, .new solver task)
      errands := s.errands.set i ⟨goal, past ++ [⟨c, answer⟩], next answer⟩ }
  | helped {caller i : Nat} {helper helper' : Helper} {answers : (c : IssuerCall) → c.Answer}
    (found : s.helpers[caller]? = some (i, helper))
    (moves : helper.goOn? s.fulfiller.flights caller answers = some helper') :
    Change solver s { s with helpers := s.helpers.set caller (i, helper') }
  | turned (fulfiller : Fulfiller) : Change solver s { s with fulfiller }

variable {solver : Solver} {s t : Issuance} {m : Move} {i : Nat} {errand : Errand}

theorem change_of_goOn? {answers : (c : IssuerCall) → c.Answer}
    (found : s.errands[i]? = some errand) (moves : s.goOn? solver i answers errand = some t) :
    Change solver s t := by
  obtain ⟨goal, past, rest⟩ := errand
  cases rest with
  | done result => cases moves
  | call c next =>
    obtain ⟨⟨answer, fulfiller⟩, -, rfl⟩ := Option.map_eq_some_iff.mp moves
    exact .went found answer fulfiller

theorem change_of_move? (moves : s.move? solver m = some t) : Change solver s t := by
  cases m with
  | add goal =>
    cases moves
    exact .added goal
  | goOn i answers =>
    obtain ⟨errand, found, hGoes⟩ := Option.bind_eq_some_iff.mp moves
    exact change_of_goOn? found hGoes
  | help caller answers =>
    obtain ⟨⟨i, helper⟩, found, hHelps⟩ := Option.bind_eq_some_iff.mp moves
    obtain ⟨helper', hGoes, rfl⟩ := Option.map_eq_some_iff.mp hHelps
    exact .helped found hGoes
  | step caller step =>
    obtain ⟨fulfiller, -, rfl⟩ := Option.map_eq_some_iff.mp moves
    exact .turned fulfiller
  | leave group caller =>
    obtain ⟨fulfiller, -, rfl⟩ := Option.map_eq_some_iff.mp moves
    exact .turned fulfiller

/-! ### Where errands and helpers have got to -/

def Started (s : Issuance) (i : Nat) (task : AuthorizationTask) : Prop :=
  ∃ errand tasks, s.errands[i]? = some errand ∧ .start tasks ∈ errand.work.past.map Turn.call ∧
    task ∈ tasks

/-- Errands and helpers have done nothing but their work, and each helper has been started. -/
structure Traced (solver : Solver) (s : Issuance) : Prop where
  errands : ∀ (i : Nat) (errand : Errand), s.errands[i]? = some errand → errand.Works
  helpers : ∀ (i : Nat) (helper : Helper), (i, helper) ∈ s.helpers →
    helper.Works solver ∧ s.Started i helper.task

/-- Errands keep their goals, and what they have done stays done. -/
theorem Change.grows (change : Change solver s t) (found : s.errands[i]? = some errand) :
    ∃ errand', t.errands[i]? = some errand' ∧ errand'.goal = errand.goal ∧
      errand.work.past <+: errand'.work.past := by
  cases change with
  | added goal =>
    exact ⟨errand, getElem?_append_of_some _ found, rfl, List.prefix_refl _⟩
  | @went j goal past c next foundThen answer fulfiller =>
    by_cases hSame : i = j
    · subst hSame
      cases found.symm.trans foundThen
      exact ⟨_, getElem?_set_of_found found _, rfl, List.prefix_append _ _⟩
    · refine ⟨errand, ?_, rfl, List.prefix_refl _⟩
      rw [List.getElem?_set_ne (Ne.symm hSame)]
      exact found
  | helped | turned => exact ⟨errand, found, rfl, List.prefix_refl _⟩

theorem Started.later {task : AuthorizationTask} (h : s.Started i task)
    (change : Change solver s t) : t.Started i task := by
  obtain ⟨errand, tasks, found, hCall, hTask⟩ := h
  obtain ⟨errand', foundThen, -, hPrefix⟩ := change.grows found
  exact ⟨errand', tasks, foundThen, (hPrefix.map Turn.call).subset hCall, hTask⟩

theorem errands_step (h : Traced solver s) (change : Change solver s t) (i : Nat) (errand : Errand)
    (found : t.errands[i]? = some errand) : errand.Works := by
  cases change with
  | added goal =>
    rcases getElem?_concat_cases found with rfl | found
    · exact .here _
    · exact h.errands i errand found
  | went foundThen answer fulfiller =>
    obtain ⟨rfl, rfl⟩ | ⟨-, found⟩ := getElem?_set_cases foundThen found
    · exact (h.errands _ _ foundThen).snoc answer
    · exact h.errands i errand found
  | helped | turned => exact h.errands i errand found

theorem started_of_went {goal : Goal} {past : List (Turn IssuerCall.Answer)} {c : IssuerCall}
    {next : c.Answer → Work goal.Result} (found : s.errands[i]? = some ⟨goal, past, .call c next⟩)
    (answer : c.Answer) (fulfiller : Fulfiller) (helpers : List (Nat × Helper))
    {task : AuthorizationTask} (hTask : task ∈ c.tasks) :
    Started ⟨fulfiller, helpers, s.errands.set i ⟨goal, past ++ [⟨c, answer⟩], next answer⟩⟩ i
      task := by
  have hCall : c = .start c.tasks := by
    cases c with
    | start tasks => rfl
    | service | store | provision | deprovision | wait | clock | notify | join | enqueue =>
      exact absurd hTask List.not_mem_nil
  refine ⟨_, c.tasks, getElem?_set_of_found found _, ?_, hTask⟩
  rw [← hCall]
  simp

theorem helpers_step (h : Traced solver s) (change : Change solver s t) (i : Nat) (helper : Helper)
    (hMem : (i, helper) ∈ t.helpers) : helper.Works solver ∧ t.Started i helper.task := by
  -- Helpers that were there before are for tasks that were started before.
  have hOld (hMem : (i, helper) ∈ s.helpers) : helper.Works solver ∧ t.Started i helper.task := by
    obtain ⟨works, started⟩ := h.helpers i helper hMem
    exact ⟨works, started.later change⟩
  cases change with
  | added | turned => exact hOld hMem
  | went found answer fulfiller =>
    rcases List.mem_append.mp hMem with hMem | hNew
    · exact hOld hMem
    · obtain ⟨task, hTask, hPair⟩ := List.mem_map.mp hNew
      cases hPair
      exact ⟨Helper.works_new solver task, started_of_went found answer fulfiller _ hTask⟩
  | helped found moves =>
    rcases List.mem_or_eq_of_mem_set hMem with hMem | hPair
    · exact hOld hMem
    · cases hPair
      obtain ⟨works, started⟩ := h.helpers _ _ (List.mem_of_getElem? found)
      obtain ⟨worksThen, hTask⟩ := works.goOn moves
      exact ⟨worksThen, hTask ▸ started⟩

theorem traced_new (solver : Solver) : Traced solver new where
  errands _ _ found := nomatch found
  helpers _ _ hMem := absurd hMem List.not_mem_nil

theorem Reachable.traced (h : Reachable solver s) : Traced solver s := by
  induction h with
  | new => exact traced_new solver
  | move m h sound moves ih =>
    have change := change_of_move? moves
    exact ⟨errands_step ih change, helpers_step ih change⟩

/-! ### Moves one after another -/

/-- Moves in which no work ends. -/
theorem Reachable.play {moves : List Move} (h : Reachable solver s)
    (played : moves.foldlM (move? solver) s = some t)
    (unended : ∀ caller result, .step caller (.finish result) ∉ moves) : Reachable solver t := by
  refine of_foldlM h played fun s t m hMem reachable hMove => .move m reachable ?_ hMove
  cases m with
  | step caller step =>
    intro i helper _
    apply Helper.admits_of_ne_finish
    rintro result rfl
    exact unended caller result hMem
  | add | goOn | help | leave => trivial

end Issuance

end Enrollment
