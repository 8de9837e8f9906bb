/-! # Procedures

A procedure makes calls to its surroundings, each with an answer of its own type, and goes on with
the answers until it is done. What the calls do is left open: a procedure can be run with any
surroundings, and together with others whose calls come in between its own.
-/

namespace Enrollment

inductive Procedure (Call : Type) (Answer : Call → Type) (α : Type) where
  | done (a : α)
  | call (c : Call) (next : Answer c → Procedure Call Answer α)

namespace Procedure

variable {Call : Type} {Answer : Call → Type} {α β : Type}

def ask (c : Call) : Procedure Call Answer (Answer c) := .call c .done

def bind : Procedure Call Answer α → (α → Procedure Call Answer β) → Procedure Call Answer β
  | .done a, f => f a
  | .call c next, f => .call c fun answer => (next answer).bind f

instance : Monad (Procedure Call Answer) where
  pure := .done
  bind := bind

/-- Runs a procedure on its own, in surroundings with a state. -/
def run {σ : Type} (handle : (c : Call) → σ → Answer c × σ) :
    Procedure Call Answer α → σ → α × σ
  | .done a, s => (a, s)
  | .call c next, s =>
    let (answer, s) := handle c s
    (next answer).run handle s

@[simp] theorem pure_eq (a : α) : (pure a : Procedure Call Answer α) = .done a := rfl

@[simp] theorem bind_eq (p : Procedure Call Answer α) (f : α → Procedure Call Answer β) :
    p >>= f = p.bind f := rfl

@[simp] theorem done_bind (a : α) (f : α → Procedure Call Answer β) :
    (done a : Procedure Call Answer α).bind f = f a := rfl

@[simp] theorem call_bind (c : Call) (next : Answer c → Procedure Call Answer α)
    (f : α → Procedure Call Answer β) :
    (call c next).bind f = call c fun answer => (next answer).bind f := rfl

theorem bind_assoc {γ : Type} (p : Procedure Call Answer α) (f : α → Procedure Call Answer β)
    (g : β → Procedure Call Answer γ) : (p.bind f).bind g = p.bind fun a => (f a).bind g := by
  induction p with
  | done a => rfl
  | call c next ih => exact congrArg (call c) (funext ih)

end Procedure

end Enrollment
