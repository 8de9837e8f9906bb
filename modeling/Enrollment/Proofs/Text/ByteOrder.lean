import Mathlib.Tactic.SplitIfs
import Enrollment.Proofs.Text.Utf8

/-! # The order of texts is that of their bytes

Texts are compared character by character. To compare their bytes comes to the same, for a smaller
character has smaller bytes, whatever follows.
-/

namespace Enrollment.Utf8

variable {n m : Nat} {x y : Bytes}

theorem cons_lt_cons (hn : n < 256) (hm : m < 256) (h : ¬n < m → n = m ∧ x < y) :
    n.toUInt8 :: x < m.toUInt8 :: y := by
  by_cases hLt : n < m
  · refine List.cons_lt_cons_iff.mpr (.inl (UInt8.lt_iff_toNat_lt.mpr ?_))
    rwa [UInt8.toNat_ofNat_of_lt' hn, UInt8.toNat_ofNat_of_lt' hm]
  · obtain ⟨rfl, hRest⟩ := h hLt
    exact List.cons_lt_cons_iff.mpr (.inr ⟨rfl, hRest⟩)

theorem tail_lt (h : n % 64 < m % 64) :
    (0x80 + n % 64).toUInt8 :: x < (0x80 + m % 64).toUInt8 :: y :=
  cons_lt_cons (by omega) (by omega) fun hFirst => absurd (Nat.add_lt_add_left h 0x80) hFirst

theorem two_tails_lt (h : n % 4096 < m % 4096) :
    (0x80 + n / 64 % 64).toUInt8 :: (0x80 + n % 64).toUInt8 :: x <
      (0x80 + m / 64 % 64).toUInt8 :: (0x80 + m % 64).toUInt8 :: y :=
  cons_lt_cons (by omega) (by omega) fun _ => ⟨by omega, tail_lt (by omega)⟩

theorem three_tails_lt (h : n % 262144 < m % 262144) :
    (0x80 + n / 4096 % 64).toUInt8 :: (0x80 + n / 64 % 64).toUInt8 :: (0x80 + n % 64).toUInt8 :: x <
      (0x80 + m / 4096 % 64).toUInt8 :: (0x80 + m / 64 % 64).toUInt8 ::
        (0x80 + m % 64).toUInt8 :: y :=
  cons_lt_cons (by omega) (by omega) fun _ => ⟨by omega, two_tails_lt (by omega)⟩

/-- The bytes of a smaller character come first, whatever follows them. -/
theorem encodeChar_lt {c d : Char} (h : c < d) (x y : Bytes) :
    encodeChar c ++ x < encodeChar d ++ y := by
  have hLt : c.toNat < d.toNat := UInt32.lt_iff_toNat_lt.mp h
  have hMax : d.toNat < 0x110000 := by
    have hValid : d.toNat < 0xD800 ∨ 0xDFFF < d.toNat ∧ d.toNat < 0x110000 := d.valid
    omega
  unfold encodeChar
  dsimp only
  generalize c.toNat = n at hLt
  generalize d.toNat = m at hLt hMax
  -- a longer form has a greater lead byte, so only forms of one length are compared further
  split_ifs <;> try omega
  all_goals refine cons_lt_cons (by omega) (by omega) fun hLead => ⟨by omega, ?_⟩
  all_goals
    first
      | omega
      | exact tail_lt (by omega)
      | exact two_tails_lt (by omega)
      | exact three_tails_lt (by omega)

theorem encodeChar_ne_nil (c : Char) : encodeChar c ≠ [] := by
  unfold encodeChar
  dsimp only
  split_ifs <;> exact List.cons_ne_nil _ _

theorem flatMap_encodeChar_lt {cs ds : List Char} (h : cs < ds) :
    cs.flatMap encodeChar < ds.flatMap encodeChar := by
  induction h with
  | @nil d ds =>
    obtain ⟨b, bytes, hChar⟩ := List.exists_cons_of_ne_nil (encodeChar_ne_nil d)
    rw [List.flatMap_cons, hChar]
    exact List.nil_lt_cons b _
  | rel hLt => exact encodeChar_lt hLt _ _
  | cons _ ih => exact List.append_left_lt ih

theorem encode_lt_encode {s t : String} : encode s < encode t ↔ s < t := by
  constructor
  · intro h
    refine Decidable.by_contra fun hNot => ?_
    rcases Std.le_iff_lt_or_eq.mp (String.not_lt.mp hNot) with hGt | rfl
    · exact List.lt_asymm h (flatMap_encodeChar_lt hGt)
    · exact List.lt_irrefl _ h
  · exact flatMap_encodeChar_lt

end Enrollment.Utf8
