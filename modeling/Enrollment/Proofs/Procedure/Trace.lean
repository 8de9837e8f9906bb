import Enrollment.Procedure

/-! # Traces

The calls that a procedure has made, with their answers, and what holds at every call of it whatever
the answers are. `Meets` follows the constructors of a procedure, so that a specification of a
procedure is put together from those of its parts.
-/

namespace Enrollment

/-- A call that has been answered. -/
structure Turn {Call : Type} (Answer : Call → Type) where
  call : Call
  answer : Answer call

namespace Procedure

variable {Call : Type} {Answer : Call → Type} {α β ε : Type}

/-- Where a procedure gets to by some calls and their answers. -/
inductive Leads : Procedure Call Answer α → List (Turn Answer) → Procedure Call Answer α → Prop
  where
  | here (p : Procedure Call Answer α) : Leads p [] p
  | turn {c : Call} {next : Answer c → Procedure Call Answer α} (answer : Answer c)
    {trace : List (Turn Answer)} {rest : Procedure Call Answer α}
    (h : Leads (next answer) trace rest) : Leads (.call c next) (⟨c, answer⟩ :: trace) rest

/-- The call that a procedure is about to make. -/
def pending? : Procedure Call Answer α → Option Call
  | .done _ => none
  | .call c _ => some c

/-- Every call that a procedure comes to make is permitted after those before it, and whenever it is
done its result is as it should be. -/
def Meets (permits : List (Turn Answer) → Call → Prop) (post : List (Turn Answer) → α → Prop)
    (past : List (Turn Answer)) : Procedure Call Answer α → Prop
  | .done a => post past a
  | .call c next =>
    permits past c ∧ ∀ answer, (next answer).Meets permits post (past ++ [⟨c, answer⟩])

variable {permits : List (Turn Answer) → Call → Prop} {past : List (Turn Answer)}

theorem Meets.bind {mid : List (Turn Answer) → α → Prop} {post : List (Turn Answer) → β → Prop}
    {p : Procedure Call Answer α} {f : α → Procedure Call Answer β}
    (h : p.Meets permits mid past) (hNext : ∀ past a, mid past a → (f a).Meets permits post past) :
    (p.bind f).Meets permits post past := by
  induction p generalizing past with
  | done a => exact hNext past a h
  | call c next ih => exact ⟨h.1, fun answer => ih answer (h.2 answer)⟩

theorem Meets.of_leads {post : List (Turn Answer) → α → Prop} {p rest : Procedure Call Answer α}
    {trace : List (Turn Answer)} (h : p.Meets permits post past) (leads : Leads p trace rest) :
    rest.Meets permits post (past ++ trace) := by
  induction leads generalizing past with
  | here p => rwa [List.append_nil]
  | turn answer _ ih =>
    rw [List.append_cons]
    exact ih (h.2 answer)

/-- How work that can fail ends: with a result that is as it should be, or broken off. -/
def Ends (broken : List (Turn Answer) → Prop) (post : List (Turn Answer) → α → Prop)
    (past : List (Turn Answer)) : Except ε α → Prop
  | .ok a => post past a
  | .error _ => broken past

variable {broken : List (Turn Answer) → Prop}

theorem Meets.attempt (mid : List (Turn Answer) → α → Prop) {post : List (Turn Answer) → β → Prop}
    {p : ExceptT ε (Procedure Call Answer) α} {f : α → ExceptT ε (Procedure Call Answer) β}
    (h : p.run.Meets permits (Ends broken mid) past)
    (hNext : ∀ past a, mid past a → (f a).run.Meets permits (Ends broken post) past) :
    (p >>= f).run.Meets permits (Ends broken post) past := by
  refine Meets.bind h ?_
  intro past result hResult
  cases result with
  | ok a => exact hNext past a hResult
  | error e => exact hResult

/-- The calls of a procedure on its own, and its result. -/
def transcript {σ : Type} (handle : (c : Call) → σ → Answer c × σ) :
    Procedure Call Answer α → σ → List (Turn Answer) × α
  | .done a, _ => ([], a)
  | .call c next, s =>
    let (answer, s) := handle c s
    let (trace, a) := (next answer).transcript handle s
    (⟨c, answer⟩ :: trace, a)

theorem leads_transcript {σ : Type} (handle : (c : Call) → σ → Answer c × σ)
    (p : Procedure Call Answer α) (s : σ) :
    Leads p (p.transcript handle s).1 (.done (p.transcript handle s).2) := by
  induction p generalizing s with
  | done a => exact .here _
  | call c next ih => exact .turn _ (ih _ _)

end Procedure

end Enrollment
