import Enrollment.Proofs.Procedure.Trace

/-! # Complete runs

Runs of a procedure to its end. A run of a procedure that was put together is put together from runs
of the parts, and every run comes to an end, whatever the surroundings answer.
-/

namespace Enrollment.Procedure

variable {Call : Type} {Answer : Call → Type} {α β ε : Type}

/-- The calls with which a procedure comes to its end, with their answers, and its result. -/
abbrev Runs (p : Procedure Call Answer α) (trace : List (Turn Answer)) (a : α) : Prop :=
  Leads p trace (.done a)

section

variable {p q r : Procedure Call Answer α} {f : α → Procedure Call Answer β}
  {trace later : List (Turn Answer)} {a : α} {b : β}

theorem runs_done_iff {a' : α} : Runs (.done a : Procedure Call Answer α) trace a' ↔
    trace = [] ∧ a' = a := by
  constructor
  · intro h
    cases h with
    | here => exact ⟨rfl, rfl⟩
  · rintro ⟨rfl, rfl⟩
    exact .here _

theorem runs_call_iff {c : Call} {next : Answer c → Procedure Call Answer α} :
    Runs (.call c next) trace a ↔
      ∃ answer rest, trace = ⟨c, answer⟩ :: rest ∧ Runs (next answer) rest a := by
  constructor
  · intro h
    cases h with
    | turn answer h => exact ⟨answer, _, rfl, h⟩
  · rintro ⟨answer, rest, rfl, h⟩
    exact .turn answer h

theorem runs_ask_iff {c : Call} {answer : Answer c} :
    Runs (ask c) trace answer ↔ trace = [⟨c, answer⟩] := by
  constructor
  · intro h
    obtain ⟨answer', rest, rfl, hRest⟩ := runs_call_iff.mp h
    obtain ⟨rfl, rfl⟩ := runs_done_iff.mp hRest
    rfl
  · rintro rfl
    exact .turn answer (.here _)

theorem runs_bind_iff : Runs (p.bind f) trace b ↔
    ∃ before a after, trace = before ++ after ∧ Runs p before a ∧ Runs (f a) after b := by
  induction p generalizing trace with
  | done a =>
    constructor
    · intro h
      exact ⟨[], a, trace, rfl, .here _, h⟩
    · rintro ⟨before, a', after, rfl, hFirst, hNext⟩
      obtain ⟨rfl, rfl⟩ := runs_done_iff.mp hFirst
      exact hNext
  | call c next ih =>
    constructor
    · intro h
      obtain ⟨answer, rest, rfl, hRest⟩ := runs_call_iff.mp h
      obtain ⟨before, a, after, rfl, hFirst, hNext⟩ := (ih answer).mp hRest
      exact ⟨⟨c, answer⟩ :: before, a, after, rfl, .turn answer hFirst, hNext⟩
    · rintro ⟨before, a, after, rfl, hFirst, hNext⟩
      obtain ⟨answer, rest, rfl, hRest⟩ := runs_call_iff.mp hFirst
      exact .turn answer ((ih answer).mpr ⟨rest, a, after, rfl, hRest, hNext⟩)

/-- Work that can fail breaks off at the first failure, or goes on with what it has. -/
theorem Runs.attempt {p : ExceptT ε (Procedure Call Answer) α}
    {f : α → ExceptT ε (Procedure Call Answer) β} {result : Except ε β}
    (h : Runs (p >>= f).run trace result) :
    (∃ e, Runs p.run trace (.error e) ∧ result = .error e) ∨
      ∃ before a after, trace = before ++ after ∧ Runs p.run before (.ok a) ∧
        Runs (f a).run after result := by
  obtain ⟨before, first, after, rfl, hFirst, hNext⟩ := runs_bind_iff.mp h
  cases first with
  | ok a => exact .inr ⟨before, a, after, rfl, hFirst, hNext⟩
  | error e =>
    obtain ⟨rfl, rfl⟩ := runs_done_iff.mp hNext
    exact .inl ⟨e, by rwa [List.append_nil], rfl⟩

theorem runs_attempt_iff {p : ExceptT ε (Procedure Call Answer) α}
    {f : α → ExceptT ε (Procedure Call Answer) β} {result : Except ε β} :
    Runs (p >>= f).run trace result ↔
      (∃ e, Runs p.run trace (.error e) ∧ result = .error e) ∨
        ∃ before a after, trace = before ++ after ∧ Runs p.run before (.ok a) ∧
          Runs (f a).run after result := by
  constructor
  · exact Runs.attempt
  · rintro (⟨e, hFirst, rfl⟩ | ⟨before, a, after, rfl, hFirst, hNext⟩)
    · exact runs_bind_iff.mpr ⟨trace, .error e, [], (List.append_nil _).symm, hFirst, .here _⟩
    · exact runs_bind_iff.mpr ⟨before, .ok a, after, rfl, hFirst, hNext⟩

/-- Where a run ends is told by the run itself, whatever comes after it. -/
theorem Runs.append_inj {other later' : List (Turn Answer)} {a' : α} (h : Runs p trace a)
    (h' : Runs p other a') (hEq : trace ++ later = other ++ later') :
    trace = other ∧ a = a' ∧ later = later' := by
  induction p generalizing trace other with
  | done result =>
    obtain ⟨rfl, rfl⟩ := runs_done_iff.mp h
    obtain ⟨rfl, rfl⟩ := runs_done_iff.mp h'
    exact ⟨rfl, rfl, hEq⟩
  | call c next ih =>
    obtain ⟨answer, rest, rfl, hRest⟩ := runs_call_iff.mp h
    obtain ⟨answer', rest', rfl, hRest'⟩ := runs_call_iff.mp h'
    obtain ⟨hTurn, hLater⟩ := List.cons.inj hEq
    cases hTurn
    obtain ⟨rfl, hResult, hAfter⟩ := ih answer hRest hRest' hLater
    exact ⟨rfl, hResult, hAfter⟩

theorem Leads.trans (h : Leads p trace q) (hLater : Leads q later r) :
    Leads p (trace ++ later) r := by
  induction h with
  | here => exact hLater
  | turn answer _ ih => exact .turn answer (ih hLater)

end

/-- The answers are those of surroundings that may take all that went before into account. -/
def Follows (answers : List (Turn Answer) → (c : Call) → Answer c) :
    List (Turn Answer) → List (Turn Answer) → Prop
  | _, [] => True
  | past, turn :: later =>
    turn.answer = answers past turn.call ∧ Follows answers (past ++ [turn]) later

/-- Whatever the surroundings answer, a procedure comes to its end. -/
theorem exists_runs (answers : List (Turn Answer) → (c : Call) → Answer c)
    (past : List (Turn Answer)) (p : Procedure Call Answer α) :
    ∃ later a, Runs p later a ∧ Follows answers past later := by
  induction p generalizing past with
  | done a => exact ⟨[], a, .here _, trivial⟩
  | call c next ih =>
    obtain ⟨later, a, runs, follows⟩ :=
      ih (answers past c) (past ++ [⟨c, answers past c⟩])
    exact ⟨_, a, .turn _ runs, rfl, follows⟩

/-- Surroundings that answer alike lead a procedure to the same end by the same calls. -/
theorem Runs.unique_of_follows {answers : List (Turn Answer) → (c : Call) → Answer c}
    {past trace other : List (Turn Answer)} {p : Procedure Call Answer α} {a b : α}
    (h : Runs p trace a) (hOther : Runs p other b) (follows : Follows answers past trace)
    (hFollows : Follows answers past other) : trace = other ∧ a = b := by
  induction p generalizing past trace other with
  | done result =>
    obtain ⟨rfl, rfl⟩ := runs_done_iff.mp h
    obtain ⟨rfl, rfl⟩ := runs_done_iff.mp hOther
    exact ⟨rfl, rfl⟩
  | call c next ih =>
    obtain ⟨answer, rest, rfl, hRest⟩ := runs_call_iff.mp h
    obtain ⟨answer', rest', rfl, hRest'⟩ := runs_call_iff.mp hOther
    obtain ⟨hAnswer, hLater⟩ := follows
    obtain ⟨hAnswer', hLater'⟩ := hFollows
    obtain rfl : answer = answer' := hAnswer.trans hAnswer'.symm
    obtain ⟨rfl, rfl⟩ := ih _ hRest hRest' hLater hLater'
    exact ⟨rfl, rfl⟩

end Enrollment.Procedure
