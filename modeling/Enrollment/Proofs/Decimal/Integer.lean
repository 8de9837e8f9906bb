import Enrollment.Decimal.Integer
import Enrollment.Proofs.Fallible

/-! # Which texts are integers

An integer is written by decimal digits, at least one, after at most one sign. A text is read
exactly when it is so written and its number is in the range, and it is read as that number.
-/

namespace Enrollment.Decimal

variable {limit half n m : Nat} {i j : Int} {beyond : IntegerError} {digits text : List Char}

/-- Digits that write a number. -/
structure Writes (digits : List Char) (n : Nat) : Prop where
  ne_nil : digits ≠ []
  isDigit : ∀ c ∈ digits, c.isDigit = true
  value_eq : Nat.ofDigitChars 10 digits 0 = n

/-- A natural number, with or without a plus sign. -/
inductive WritesNat : List Char → Nat → Prop where
  | plain {digits : List Char} {n : Nat} (h : Writes digits n) : WritesNat digits n
  | plus {digits : List Char} {n : Nat} (h : Writes digits n) : WritesNat ('+' :: digits) n

inductive WritesInt : List Char → Int → Prop where
  | nonneg {text : List Char} {n : Nat} (h : WritesNat text n) : WritesInt text n
  | minus {digits : List Char} {n : Nat} (h : Writes digits n) : WritesInt ('-' :: digits) (-n)

/-! Natural numbers -/

theorem le_ofDigitChars (n : Nat) (digits : List Char) : n ≤ Nat.ofDigitChars 10 digits n := by
  induction digits generalizing n with
  | nil => exact Nat.le_of_eq Nat.ofDigitChars_nil.symm
  | cons c digits ih =>
    rw [Nat.ofDigitChars_cons]
    apply Nat.le_trans _ (ih _)
    omega

theorem readDigits_cons (limit : Nat) (beyond : IntegerError) (n : Nat) (c : Char)
    (digits : List Char) : readDigits limit beyond n (c :: digits) =
      if c.isDigit then
        if limit < 10 * n + (c.toNat - '0'.toNat) then .error beyond
        else readDigits limit beyond (10 * n + (c.toNat - '0'.toNat)) digits
      else .error .invalidDigit := by
  rw [Nat.mul_comm]
  rfl

-- A number that has passed the limit is not brought back by further digits, so the test after each
-- digit comes to a test of the whole number.
theorem readDigits_eq_ok_iff (hStart : n ≤ limit) : readDigits limit beyond n digits = .ok m ↔
    (∀ c ∈ digits, c.isDigit = true) ∧ Nat.ofDigitChars 10 digits n = m ∧ m ≤ limit := by
  induction digits generalizing n with
  | nil =>
    rw [readDigits, Nat.ofDigitChars_nil]
    constructor
    · rintro ⟨⟩
      exact ⟨nofun, rfl, hStart⟩
    · rintro ⟨-, rfl, -⟩
      rfl
  | cons c digits ih =>
    rw [readDigits_cons, List.forall_mem_cons, Nat.ofDigitChars_cons]
    by_cases hDigit : c.isDigit = true
    · rw [if_pos hDigit]
      by_cases hNext : limit < 10 * n + (c.toNat - '0'.toNat)
      · rw [if_pos hNext]
        constructor
        · intro h
          cases h
        · rintro ⟨-, rfl, hLimit⟩
          have hLe := le_ofDigitChars (10 * n + (c.toNat - '0'.toNat)) digits
          omega
      · rw [if_neg hNext, ih (Nat.not_lt.mp hNext)]
        simp [hDigit]
    · rw [if_neg hDigit]
      constructor
      · intro h
        cases h
      · rintro ⟨⟨h, -⟩, -⟩
        exact absurd h hDigit

theorem readMagnitude_eq_ok_iff :
    readMagnitude limit beyond digits = .ok n ↔ Writes digits n ∧ n ≤ limit := by
  unfold readMagnitude
  by_cases hDigits : digits = []
  · rw [if_pos hDigits]
    constructor
    · intro h
      cases h
    · rintro ⟨h, -⟩
      exact absurd hDigits h.ne_nil
  · rw [if_neg hDigits, readDigits_eq_ok_iff (Nat.zero_le limit)]
    constructor
    · rintro ⟨hAll, hValue, hLimit⟩
      exact ⟨⟨hDigits, hAll, hValue⟩, hLimit⟩
    · rintro ⟨⟨-, hAll, hValue⟩, hLimit⟩
      exact ⟨hAll, hValue, hLimit⟩

theorem not_writes_cons {c : Char} (hc : c.isDigit = false) : ¬Writes (c :: digits) n := by
  intro h
  rw [h.isDigit c List.mem_cons_self] at hc
  cases hc

theorem writesNat_plus_iff : WritesNat ('+' :: digits) n ↔ Writes digits n := by
  constructor
  · intro h
    cases h with
    | plain h => exact absurd h (not_writes_cons (by decide))
    | plus h => exact h
  · exact .plus

theorem writesNat_iff (h : ∀ digits, text ≠ '+' :: digits) : WritesNat text n ↔ Writes text n := by
  constructor
  · intro hText
    cases hText with
    | plain hText => exact hText
    | plus hText => exact absurd rfl (h _)
  · exact .plain

theorem not_writesNat_nil : ¬WritesNat [] n := by
  rintro (⟨⟨h, -, -⟩⟩)
  exact h rfl

theorem WritesNat.unique (h : WritesNat text n) (hOther : WritesNat text m) : n = m := by
  cases h with
  | plain h =>
    cases hOther with
    | plain hOther => exact h.value_eq.symm.trans hOther.value_eq
    | plus _ => exact absurd h (not_writes_cons (by decide))
  | plus h => exact h.value_eq.symm.trans (writesNat_plus_iff.mp hOther).value_eq

theorem readNat_eq_ok_iff {s : String} :
    readNat limit s = .ok n ↔ WritesNat s.toList n ∧ n ≤ limit := by
  unfold readNat
  split
  · next hText =>
    rw [hText]
    constructor
    · intro h
      cases h
    · rintro ⟨h, -⟩
      exact absurd h not_writesNat_nil
  · next digits hText => rw [hText, writesNat_plus_iff, readMagnitude_eq_ok_iff]
  · next hNil hPlus => rw [writesNat_iff hPlus, readMagnitude_eq_ok_iff]

/-! Integers -/

theorem writesInt_minus_iff :
    WritesInt ('-' :: digits) i ↔ ∃ n : Nat, Writes digits n ∧ i = -(n : Int) := by
  constructor
  · intro h
    cases h with
    | nonneg h =>
      cases h with
      | plain h => exact absurd h (not_writes_cons (by decide))
    | minus h => exact ⟨_, h, rfl⟩
  · rintro ⟨n, h, rfl⟩
    exact .minus h

theorem writesInt_iff (h : ∀ digits, text ≠ '-' :: digits) :
    WritesInt text i ↔ ∃ n : Nat, WritesNat text n ∧ i = (n : Int) := by
  constructor
  · intro hText
    cases hText with
    | nonneg hText => exact ⟨_, hText, rfl⟩
    | minus _ => exact absurd rfl (h _)
  · rintro ⟨n, hText, rfl⟩
    exact .nonneg hText

theorem WritesInt.unique (h : WritesInt text i) (hOther : WritesInt text j) : i = j := by
  cases h with
  | nonneg h =>
    cases hOther with
    | nonneg hOther => rw [h.unique hOther]
    | minus _ =>
      cases h with
      | plain h => exact absurd h (not_writes_cons (by decide))
  | minus h =>
    obtain ⟨n, hDigits, rfl⟩ := writesInt_minus_iff.mp hOther
    rw [← h.value_eq, ← hDigits.value_eq]

/-- Without a minus sign a number is read up to the greatest of its kind. -/
theorem map_readMagnitude_eq_ok_iff (hHalf : 0 < half) :
    (readMagnitude (half - 1) beyond digits).map (fun n : Nat => (n : Int)) = .ok i ↔
      (∃ n : Nat, Writes digits n ∧ i = (n : Int)) ∧ -(half : Int) ≤ i ∧ i < half := by
  rw [map_eq_ok_iff]
  constructor
  · rintro ⟨n, hRead, rfl⟩
    obtain ⟨hDigits, hLimit⟩ := readMagnitude_eq_ok_iff.mp hRead
    exact ⟨⟨n, hDigits, rfl⟩, by omega, by omega⟩
  · rintro ⟨⟨n, hDigits, rfl⟩, -, hHigh⟩
    exact ⟨n, readMagnitude_eq_ok_iff.mpr ⟨hDigits, by omega⟩, rfl⟩

theorem readInt_eq_ok_iff {bits : Nat} {s : String} : readInt bits s = .ok i ↔
    WritesInt s.toList i ∧
      -(Nat.pow 2 (bits - 1) : Int) ≤ i ∧ i < (Nat.pow 2 (bits - 1) : Int) := by
  have hHalf : 0 < Nat.pow 2 (bits - 1) := Nat.two_pow_pos (bits - 1)
  unfold readInt
  generalize Nat.pow 2 (bits - 1) = half at hHalf
  dsimp only
  split
  · next hText =>
    rw [hText, writesInt_iff (by simp)]
    constructor
    · intro h
      cases h
    · rintro ⟨⟨n, h, -⟩, -⟩
      exact absurd h not_writesNat_nil
  · next digits hText =>
    rw [hText, writesInt_minus_iff, map_eq_ok_iff]
    constructor
    · rintro ⟨n, hRead, rfl⟩
      obtain ⟨hDigits, hLimit⟩ := readMagnitude_eq_ok_iff.mp hRead
      exact ⟨⟨n, hDigits, rfl⟩, by omega, by omega⟩
    · rintro ⟨⟨n, hDigits, rfl⟩, hLow, -⟩
      exact ⟨n, readMagnitude_eq_ok_iff.mpr ⟨hDigits, by omega⟩, rfl⟩
  · next digits hText =>
    rw [hText, writesInt_iff (by simp), map_readMagnitude_eq_ok_iff hHalf]
    simp only [writesNat_plus_iff]
  · next hNil hMinus hPlus =>
    rw [writesInt_iff hMinus, map_readMagnitude_eq_ok_iff hHalf]
    simp only [writesNat_iff hPlus]

end Enrollment.Decimal
