import Enrollment.Procedure

/-! # Credit

Some calls of a procedure cost something, and the answers to some bring something in. A procedure
affords its calls with a given credit when it can pay for each of them out of that credit and what
came in before, whatever the answers are.
-/

namespace Enrollment

/-- Which calls may be made, what they cost and what their answers bring in. -/
structure Tariff {Call : Type} (Answer : Call → Type) where
  allows : Call → Prop
  price : Call → Nat
  gain : (c : Call) → Answer c → Nat

namespace Procedure

variable {Call : Type} {Answer : Call → Type} {α β : Type}

/-- The calls can all be paid for out of a credit, and what is left is as it should be. -/
def Affords (tariff : Tariff Answer) (post : Nat → α → Prop) (credit : Nat) :
    Procedure Call Answer α → Prop
  | .done a => post credit a
  | .call c next =>
    tariff.allows c ∧ tariff.price c ≤ credit ∧
      ∀ answer, (next answer).Affords tariff post (credit - tariff.price c + tariff.gain c answer)

variable {tariff : Tariff Answer} {credit : Nat}

theorem Affords.bind {mid : Nat → α → Prop} {post : Nat → β → Prop} {p : Procedure Call Answer α}
    {f : α → Procedure Call Answer β} (h : p.Affords tariff mid credit)
    (hNext : ∀ credit a, mid credit a → (f a).Affords tariff post credit) :
    (p.bind f).Affords tariff post credit := by
  induction p generalizing credit with
  | done a => exact hNext credit a h
  | call c next ih => exact ⟨h.1, h.2.1, fun answer => ih answer (h.2.2 answer)⟩

end Procedure

end Enrollment
