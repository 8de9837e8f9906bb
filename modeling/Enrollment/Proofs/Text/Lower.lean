import Enrollment.Text.Blank
import Enrollment.Text.Utf8

/-! # Lower case

Lower case changes the capital letters of ASCII and nothing else.
-/

namespace Enrollment.Text

theorem of_ascii {P : Char → Prop} (h : ∀ n < 128, P (Char.ofNat n)) {c : Char}
    (hc : c.toNat < 128) : P c := by
  have hChar := h c.toNat hc
  rwa [Char.ofNat_toNat] at hChar

theorem exists_ofNat_add {first last : Nat} {c : Char} (hFirst : first ≤ c.toNat)
    (hLast : c.toNat ≤ last) : ∃ n ≤ last - first, c = Char.ofNat (first + n) := by
  refine ⟨c.toNat - first, by omega, ?_⟩
  rw [Nat.add_sub_cancel' hFirst, Char.ofNat_toNat]

/-- What does not tell capital letters from small ones does not notice lower case. -/
theorem toLower_invariant {α : Type} (f : Char → α)
    (h : ∀ n < 26, f (Char.ofNat (97 + n)) = f (Char.ofNat (65 + n))) (c : Char) :
    f c.toLower = f c := by
  have hSmall : ∀ n < 26, (Char.ofNat (65 + n)).toLower = Char.ofNat (97 + n) := by decide
  by_cases hUpper : 65 ≤ c.toNat ∧ c.toNat ≤ 90
  · obtain ⟨n, hn, rfl⟩ := exists_ofNat_add hUpper.1 hUpper.2
    rw [hSmall n (by omega), h n (by omega)]
  · have hKept : c.toLower = c := dif_neg hUpper
    rw [hKept]

@[simp] theorem toLower_toLower (c : Char) : c.toLower.toLower = c.toLower :=
  toLower_invariant Char.toLower (by decide) c

theorem toLower_toUpper (c : Char) : c.toUpper.toLower = c.toLower := by
  have hCapital : ∀ n < 26,
      (Char.ofNat (97 + n)).toUpper.toLower = (Char.ofNat (97 + n)).toLower := by decide
  by_cases hLower : 97 ≤ c.toNat ∧ c.toNat ≤ 122
  · obtain ⟨n, hn, rfl⟩ := exists_ofNat_add hLower.1 hLower.2
    exact hCapital n (by omega)
  · have hKept : c.toUpper = c := dif_neg hLower
    rw [hKept]

/-- A small letter is what a letter of either case is in lower case. -/
theorem toLower_eq_iff_of_toLower {d : Char} (hd : d.toLower = d) (c : Char) :
    c.toLower = d ↔ c = d ∨ c = d.toUpper := by
  constructor
  · rintro rfl
    have hSmall : ∀ n < 26, Char.ofNat (65 + n) = (Char.ofNat (65 + n)).toLower.toUpper := by decide
    by_cases hUpper : 65 ≤ c.toNat ∧ c.toNat ≤ 90
    · obtain ⟨n, hn, rfl⟩ := exists_ofNat_add hUpper.1 hUpper.2
      exact .inr (hSmall n (by omega))
    · have hKept : c.toLower = c := dif_neg hUpper
      exact .inl hKept.symm
  · rintro (rfl | rfl)
    · exact hd
    · rw [toLower_toUpper, hd]

@[simp] theorem isBlank_toLower (c : Char) : isBlank c.toLower = isBlank c :=
  toLower_invariant isBlank (by decide) c

theorem length_encodeChar_toLower (c : Char) :
    (Utf8.encodeChar c.toLower).length = (Utf8.encodeChar c).length :=
  toLower_invariant (fun c => (Utf8.encodeChar c).length) (by decide) c

end Enrollment.Text
