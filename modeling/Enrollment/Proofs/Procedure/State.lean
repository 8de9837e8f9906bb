import Enrollment.Procedure

/-! # Procedures in a state

Surroundings that have a state permit some calls in it, and their answers lead to other states. A
procedure upholds a specification if it makes permitted calls only, whatever it is answered, and
ends in a state that is as it should be.
-/

namespace Enrollment

structure Surroundings {Call : Type} (Answer : Call → Type) (σ : Type) where
  permits : σ → Call → Prop
  answers : σ → (c : Call) → Answer c → σ → Prop

namespace Procedure

variable {Call : Type} {Answer : Call → Type} {σ α β : Type}

def Upholds (around : Surroundings Answer σ) (post : σ → α → Prop) (now : σ) :
    Procedure Call Answer α → Prop
  | .done a => post now a
  | .call c next => around.permits now c ∧
    ∀ answer later, around.answers now c answer later → (next answer).Upholds around post later

theorem Upholds.bind {around : Surroundings Answer σ} {mid : σ → α → Prop} {post : σ → β → Prop}
    {now : σ} {p : Procedure Call Answer α} {f : α → Procedure Call Answer β}
    (h : p.Upholds around mid now)
    (hNext : ∀ later a, mid later a → (f a).Upholds around post later) :
    (p.bind f).Upholds around post now := by
  induction p generalizing now with
  | done a => exact hNext now a h
  | call c next ih =>
    refine ⟨h.1, ?_⟩
    intro answer later hAnswer
    exact ih answer (h.2 answer later hAnswer)

end Procedure

end Enrollment
