import Mathlib.Algebra.Order.Ring.Nat
import Mathlib.Data.List.Induction
import Enrollment.Natural
import Enrollment.Proofs.Text.Utf8

/-! # Big-endian numbers there and back

In a given width all bytes are kept, zeros in front too; in the fewest bytes there is no zero in
front. Either way a number has one form only.
-/

namespace Enrollment.BigEndian

variable {bytes front back : Bytes} {b : UInt8} {n m k : Nat}

@[simp] theorem length_write (k n : Nat) : (write k n).length = k := by
  induction k generalizing n with
  | zero => rfl
  | succ k ih => rw [write, List.length_append, ih, List.length_singleton]

theorem read_concat (bytes : Bytes) (b : UInt8) :
    read (bytes ++ [b]) = read bytes * 256 + b.toNat := by
  rw [read, List.foldl_append]
  rfl

theorem read_append (front back : Bytes) :
    read (front ++ back) = read front * 256 ^ back.length + read back := by
  induction back using List.reverseRecOn with
  | nil => simp [read]
  | append_singleton back b ih =>
    rw [← List.append_assoc, read_concat, ih, read_concat, List.length_append,
      List.length_singleton, pow_succ, Nat.add_mul, Nat.mul_assoc, Nat.add_assoc]

theorem read_cons (b : UInt8) (bytes : Bytes) :
    read (b :: bytes) = b.toNat * 256 ^ bytes.length + read bytes := by
  have hOne : read [b] = b.toNat := by simp [read]
  rw [← List.singleton_append, read_append, hOne]

theorem read_lt (bytes : Bytes) : read bytes < 256 ^ bytes.length := by
  induction bytes using List.reverseRecOn with
  | nil => simp [read]
  | append_singleton bytes b ih =>
    have hb := b.toNat_lt
    rw [read_concat, List.length_append, List.length_singleton, pow_succ]
    omega

theorem read_write (k n : Nat) : read (write k n) = n % 256 ^ k := by
  induction k generalizing n with
  | zero => simp [write, read, Nat.mod_one]
  | succ k ih =>
    have hByte : n % 256 < 256 := Nat.mod_lt n (by decide)
    rw [write, read_concat, ih, UInt8.toNat_ofNat_of_lt' hByte, pow_succ', Nat.mod_mul]
    omega

theorem read_write_of_lt (h : n < 256 ^ k) : read (write k n) = n := by
  rw [read_write, Nat.mod_eq_of_lt h]

theorem write_read (bytes : Bytes) : write bytes.length (read bytes) = bytes := by
  induction bytes using List.reverseRecOn with
  | nil => rfl
  | append_singleton bytes b ih =>
    have hb := b.toNat_lt
    have hFront : (read bytes * 256 + b.toNat) / 256 = read bytes := by omega
    have hLast : (read bytes * 256 + b.toNat) % 256 = b.toNat := by omega
    have hByte : b.toNat.toUInt8 = b := UInt8.ofNat_toNat
    rw [List.length_append, List.length_singleton, write, read_concat, hFront, hLast, ih, hByte]

theorem eq_of_read_of_length {bytes' : Bytes} (hLength : bytes.length = bytes'.length)
    (hRead : read bytes = read bytes') : bytes = bytes' := by
  rw [← write_read bytes, hLength, hRead, write_read]

theorem pow_256 (k : Nat) : 256 ^ k = 2 ^ (8 * k) := by
  rw [pow_mul]
  rfl

theorem lt_pow_width (n : Nat) : n < 256 ^ width n := by
  rcases Nat.eq_zero_or_pos n with rfl | hn
  · decide
  · rw [pow_256, ← Nat.log2_lt (Nat.ne_of_gt hn), width]
    omega

theorem pow_le_of_width (hn : 0 < n) (h : width n = k + 1) : 256 ^ k ≤ n := by
  rw [pow_256, ← Nat.le_log2 (Nat.ne_of_gt hn)]
  rw [width] at h
  omega

theorem width_eq (hLow : 256 ^ k ≤ n) (hHigh : n < 256 ^ (k + 1)) : width n = k + 1 := by
  have hn : n ≠ 0 := fun h => absurd hLow (by simp [h])
  rw [pow_256, ← Nat.le_log2 hn] at hLow
  rw [pow_256, ← Nat.log2_lt hn] at hHigh
  rw [width]
  omega

@[simp] theorem read_writeMinimal (n : Nat) : read (writeMinimal n) = n :=
  read_write_of_lt (lt_pow_width n)

/-- Bytes without a zero in front. -/
def Shortest (bytes : Bytes) : Prop := ∃ b rest, bytes = b :: rest ∧ b ≠ 0

theorem shortest_writeMinimal (hn : 0 < n) : Shortest (writeMinimal n) := by
  have hLength : (writeMinimal n).length = width n := length_write _ _
  cases hBytes : writeMinimal n with
  | nil =>
    rw [hBytes] at hLength
    cases hLength
  | cons b rest =>
    refine ⟨b, rest, rfl, ?_⟩
    rintro rfl
    -- A zero in front would leave the number to one byte less than it takes.
    rw [hBytes, List.length_cons] at hLength
    have hLow := pow_le_of_width hn hLength.symm
    have hRead := read_writeMinimal n
    have hLess := read_lt rest
    rw [hBytes, read_cons, UInt8.toNat_zero, Nat.zero_mul, Nat.zero_add] at hRead
    omega

theorem width_read (hb : b ≠ 0) : width (read (b :: bytes)) = bytes.length + 1 := by
  have hPositive : 0 < b.toNat := by
    refine Nat.pos_of_ne_zero fun hZero => hb ?_
    rw [← UInt8.toNat_inj, hZero, UInt8.toNat_zero]
  have hLow : 256 ^ bytes.length ≤ read (b :: bytes) := by
    rw [read_cons]
    exact (Nat.le_mul_of_pos_left _ hPositive).trans (Nat.le_add_right _ _)
  exact width_eq hLow (read_lt (b :: bytes))

theorem writeMinimal_read (hb : b ≠ 0) : writeMinimal (read (b :: bytes)) = b :: bytes := by
  rw [writeMinimal, width_read hb, ← List.length_cons, write_read]

theorem Shortest.eq_of_read {bytes' : Bytes} (h : Shortest bytes) (h' : Shortest bytes')
    (hRead : read bytes = read bytes') : bytes = bytes' := by
  obtain ⟨b, rest, rfl, hb⟩ := h
  obtain ⟨b', rest', rfl, hb'⟩ := h'
  rw [← writeMinimal_read hb, hRead, writeMinimal_read hb']

end Enrollment.BigEndian
