import Enrollment.Proofs.Procedure.Completion

/-! # Procedures under way

Where a procedure has got to, and by which calls. If every call that it can come to make is of a
kind, then so are those that it has made by then and the one that it makes next.
-/

namespace Enrollment

namespace Procedure

variable {Call : Type} {Answer : Call → Type} {α β ε : Type}

/-- Whatever it is answered, a procedure makes calls of one kind only. -/
def Makes (allowed : Call → Prop) : Procedure Call Answer α → Prop
  | .done _ => True
  | .call c next => allowed c ∧ ∀ answer, (next answer).Makes allowed

variable {allowed : Call → Prop}

theorem makes_ask {c : Call} (h : allowed c) : (ask c : Procedure Call Answer _).Makes allowed :=
  ⟨h, fun _ => trivial⟩

theorem Makes.bind {p : Procedure Call Answer α} {f : α → Procedure Call Answer β}
    (h : p.Makes allowed) (hNext : ∀ a, (f a).Makes allowed) : (p.bind f).Makes allowed := by
  induction p with
  | done a => exact hNext a
  | call c next ih => exact ⟨h.1, fun answer => ih answer (h.2 answer)⟩

theorem Makes.attempt {p : ExceptT ε (Procedure Call Answer) α}
    {f : α → ExceptT ε (Procedure Call Answer) β} (h : p.run.Makes allowed)
    (hNext : ∀ a, (f a).run.Makes allowed) : (p >>= f).run.Makes allowed := by
  refine Makes.bind h fun result => ?_
  cases result with
  | ok a => exact hNext a
  | error e => trivial

theorem Makes.of_leads {p rest : Procedure Call Answer α} {trace : List (Turn Answer)}
    (h : p.Makes allowed) (leads : Leads p trace rest) :
    (∀ turn ∈ trace, allowed turn.call) ∧ rest.Makes allowed := by
  induction leads with
  | here p => exact ⟨nofun, h⟩
  | turn answer _ ih =>
    obtain ⟨hTrace, hRest⟩ := ih (h.2 answer)
    exact ⟨List.forall_mem_cons.mpr ⟨h.1, hTrace⟩, hRest⟩

theorem leads_done_iff {a : α} {trace : List (Turn Answer)} {rest : Procedure Call Answer α} :
    Leads (.done a) trace rest ↔ trace = [] ∧ rest = .done a := by
  constructor
  · intro h
    cases h with
    | here => exact ⟨rfl, rfl⟩
  · rintro ⟨rfl, rfl⟩
    exact .here _

theorem leads_call_iff {c : Call} {next : Answer c → Procedure Call Answer α}
    {trace : List (Turn Answer)} {rest : Procedure Call Answer α} :
    Leads (.call c next) trace rest ↔ trace = [] ∧ rest = .call c next ∨
      ∃ answer later, trace = ⟨c, answer⟩ :: later ∧ Leads (next answer) later rest := by
  constructor
  · intro h
    cases h with
    | here => exact .inl ⟨rfl, rfl⟩
    | turn answer h => exact .inr ⟨answer, _, rfl, h⟩
  · rintro (⟨rfl, rfl⟩ | ⟨answer, later, rfl, h⟩)
    · exact .here _
    · exact .turn answer h

theorem Leads.snoc {p : Procedure Call Answer α} {trace : List (Turn Answer)} {c : Call}
    {next : Answer c → Procedure Call Answer α} (h : Leads p trace (.call c next))
    (answer : Answer c) : Leads p (trace ++ [⟨c, answer⟩]) (next answer) :=
  h.trans (.turn answer (.here _))

end Procedure

structure Progress {Call : Type} (Answer : Call → Type) (α : Type) where
  past : List (Turn Answer)
  rest : Procedure Call Answer α

namespace Progress

open Procedure

variable {Call : Type} {Answer : Call → Type} {α : Type}

def start (p : Procedure Call Answer α) : Progress Answer α := ⟨[], p⟩

/-- The calls that have been answered, and the one that comes next. -/
def calls (w : Progress Answer α) : List Call := w.past.map Turn.call ++ w.rest.pending?.toList

def answer? (answers : (c : Call) → Answer c) : Progress Answer α → Option (Progress Answer α)
  | ⟨_, .done _⟩ => none
  | ⟨past, .call c next⟩ => some ⟨past ++ [⟨c, answers c⟩], next (answers c)⟩

theorem answer?_of_done {w : Progress Answer α} {answers : (c : Call) → Answer c} {a : α}
    (done : w.rest = .done a) : w.answer? answers = none := by
  obtain ⟨past, rest⟩ := w
  cases done
  rfl

theorem leads_of_answer? {p : Procedure Call Answer α} {w w' : Progress Answer α}
    {answers : (c : Call) → Answer c} (leads : Leads p w.past w.rest)
    (h : w.answer? answers = some w') : Leads p w'.past w'.rest := by
  obtain ⟨past, rest⟩ := w
  cases rest with
  | done a => cases h
  | call c next =>
    cases h
    exact leads.snoc (answers c)

theorem forall_calls {p : Procedure Call Answer α} {w : Progress Answer α} {allowed : Call → Prop}
    (h : p.Makes allowed) (leads : Leads p w.past w.rest) : ∀ c ∈ w.calls, allowed c := by
  obtain ⟨past, rest⟩ := w
  obtain ⟨hPast, hRest⟩ := h.of_leads leads
  intro c hMem
  rcases List.mem_append.mp hMem with hMade | hNext
  · obtain ⟨turn, hTurn, rfl⟩ := List.mem_map.mp hMade
    exact hPast turn hTurn
  · cases rest with
    | done a => cases hNext
    | call d next =>
      cases List.mem_singleton.mp hNext
      exact hRest.1

end Progress

end Enrollment
