import Enrollment.Json.Reader
import Enrollment.Proofs.Text.Utf8

/-! # Integers there and back

An integer is printed by its decimal digits, and the scanner takes them up to what cannot go on a
number.
-/

namespace Enrollment.Json

open Utf8 (encodeChar)

/-- The decimal digits of a natural number, without leading zeros. -/
def decimals (n : Nat) : List Nat := (Nat.toDigits 10 n).map fun c => c.toNat - 48

def Numeral.ofInt (n : Int) : Numeral := ⟨n < 0, decimals n.natAbs, [], none⟩

/-- Whether a text cannot go on a number. -/
def EndsNumber (rest : Bytes) : Prop :=
  ∀ b ∈ rest.head?, digit? b = none ∧ b ≠ 0x2E ∧ b ≠ 0x65 ∧ b ≠ 0x45

theorem digit_byte {c : Char} (h : c.isDigit = true) :
    ∃ b, encodeChar c = [b] ∧ b.toNat = c.toNat ∧ digit? b = some (c.toNat - 48) := by
  have hBounds : 48 ≤ c.toNat ∧ c.toNat ≤ 57 := by
    simpa [Char.isDigit, UInt32.le_iff_toNat_le] using h
  have hByte : c.toNat.toUInt8.toNat = c.toNat := UInt8.toNat_ofNat_of_lt' (show _ < 256 by omega)
  refine ⟨c.toNat.toUInt8, ?_, hByte, ?_⟩
  · unfold encodeChar
    dsimp only
    rw [if_pos (by omega)]
  · rw [digit?, if_pos (by simp only [UInt8.le_iff_toNat_le, hByte]; exact hBounds), hByte]

theorem scanDigits_chars {cs : List Char} (h : ∀ c ∈ cs, c.isDigit = true) {rest : Bytes}
    (hRest : ∀ b ∈ rest.head?, digit? b = none) :
    scanDigits (cs.flatMap encodeChar ++ rest) = (cs.map fun c => c.toNat - 48, rest) := by
  induction cs with
  | nil =>
    cases rest with
    | nil => rfl
    | cons b rest =>
      have hb := hRest b rfl
      simp [scanDigits, hb]
  | cons c cs ih =>
    obtain ⟨b, hByte, -, hDigit⟩ := digit_byte (h c List.mem_cons_self)
    rw [List.flatMap_cons, hByte, List.append_assoc, List.cons_append, List.nil_append, scanDigits,
      hDigit, ih fun d hd => h d (List.mem_cons_of_mem _ hd)]
    rfl

theorem scanDigits_decimals (n : Nat) {rest : Bytes} (hRest : ∀ b ∈ rest.head?, digit? b = none) :
    scanDigits ((Nat.toDigits 10 n).flatMap encodeChar ++ rest) = (decimals n, rest) :=
  scanDigits_chars (fun _ hc => Nat.isDigit_of_mem_toDigits (by decide) (by decide) hc) hRest

theorem decimals_of_lt {n : Nat} (h : n < 10) : decimals n = [n] := by
  rw [decimals, Nat.toDigits_of_lt_base h, List.map_singleton,
    Nat.toNat_digitChar_sub_48_of_lt_ten h]

theorem decimals_of_ge {n : Nat} (h : 10 ≤ n) : decimals n = decimals (n / 10) ++ [n % 10] := by
  rw [decimals, Nat.toDigits_of_base_le (by decide) h, List.map_append, List.map_singleton,
    Nat.toNat_digitChar_sub_48_of_lt_ten (Nat.mod_lt _ (by decide))]
  rfl

theorem decimals_ne_nil (n : Nat) : decimals n ≠ [] := by
  rw [decimals, ne_eq, List.map_eq_nil_iff]
  exact Nat.toDigits_ne_nil

theorem head_decimals {n : Nat} (h : 0 < n) : ∀ d ∈ (decimals n).head?, 0 < d := by
  induction n using Nat.strongRecOn with
  | ind n ih =>
    by_cases hSmall : n < 10
    · rw [decimals_of_lt hSmall]
      rintro d ⟨⟩
      exact h
    · have hPrefix := ih (n / 10) (by omega) (by omega)
      rw [decimals_of_ge (by omega)]
      cases hDigits : decimals (n / 10) with
      | nil => exact absurd hDigits (decimals_ne_nil _)
      | cons d ds =>
        rw [hDigits] at hPrefix
        exact hPrefix

theorem decimals_ne_zero_cons (n d : Nat) (ds : List Nat) : decimals n ≠ 0 :: d :: ds := by
  intro hDigits
  rcases Nat.eq_zero_or_pos n with rfl | hPos
  · rw [decimals_of_lt (by decide)] at hDigits
    cases hDigits
  · have hHead := head_decimals hPos 0
    rw [hDigits] at hHead
    exact Nat.lt_irrefl 0 (hHead rfl)

theorem scanFraction_end (negative : Bool) (whole : List Nat) {rest : Bytes}
    (h : EndsNumber rest) :
    scanFraction negative whole rest = (.number ⟨negative, whole, [], none⟩, rest) := by
  cases rest with
  | nil => rfl
  | cons b rest =>
    obtain ⟨-, hPoint, hSmall, hBig⟩ := h b rfl
    simp [scanFraction, scanExponent, hPoint, hSmall, hBig]

theorem scanNumber_decimals (negative : Bool) (n : Nat) {rest : Bytes} (h : EndsNumber rest) :
    scanNumber negative ((Nat.toDigits 10 n).flatMap encodeChar ++ rest) =
      (.number ⟨negative, decimals n, [], none⟩, rest) := by
  rw [scanNumber, scanDigits_decimals n fun b hb => (h b hb).1]
  split
  · next hDigits => exact absurd (Prod.mk.inj hDigits).1 (decimals_ne_nil n)
  · next hDigits => exact absurd (Prod.mk.inj hDigits).1 (decimals_ne_zero_cons n _ _)
  · next hDigits =>
    obtain ⟨rfl, rfl⟩ := Prod.mk.inj hDigits
    exact scanFraction_end negative _ h

theorem intChars_of_nonneg {n : Int} (h : 0 ≤ n) :
    (toString n).toList = Nat.toDigits 10 n.natAbs := by
  obtain ⟨m, rfl⟩ := Int.eq_ofNat_of_zero_le h
  exact Nat.toList_repr

theorem intChars_of_neg {n : Int} (h : n < 0) :
    (toString n).toList = '-' :: Nat.toDigits 10 n.natAbs := by
  obtain ⟨m, rfl⟩ := Int.eq_negSucc_of_lt_zero h
  have hString : toString (Int.negSucc m) = "-" ++ (m + 1).repr := rfl
  rw [hString, String.toList_append, Nat.toList_repr]
  rfl

theorem le_foldl_digits (ds : List Nat) (s : Nat) : s ≤ ds.foldl (fun s d => s * 10 + d) s := by
  induction ds generalizing s with
  | nil => exact Nat.le_refl s
  | cons d ds ih => exact Nat.le_trans (by omega) (ih (s * 10 + d))

theorem extend_eq (ds : List Nat) (s : Nat)
    (h : ds.foldl (fun s d => s * 10 + d) s ≤ maxWord) :
    extend s ds = (ds.foldl (fun s d => s * 10 + d) s, ds.length, 0) := by
  induction ds generalizing s with
  | nil => rfl
  | cons d ds ih =>
    have hNext : ¬maxWord < s * 10 + d := Nat.not_lt.mpr (Nat.le_trans (le_foldl_digits ds _) h)
    rw [extend]
    dsimp only
    rw [if_neg hNext, ih (s * 10 + d) h]
    rfl

theorem foldl_decimals (n : Nat) : (decimals n).foldl (fun s d => s * 10 + d) 0 = n := by
  induction n using Nat.strongRecOn with
  | ind n ih =>
    by_cases hSmall : n < 10
    · rw [decimals_of_lt hSmall]
      exact Nat.zero_add n
    · rw [decimals_of_ge (by omega), List.foldl_append, ih (n / 10) (by omega)]
      exact Nat.div_add_mod' n 10

/-- The integers of sixty-four bits, with or without sign. -/
def IsWord (n : Int) : Prop := -0x8000000000000000 ≤ n ∧ n ≤ maxWord

theorem Numeral.read_ofInt {n : Int} (h : IsWord n) : (Numeral.ofInt n).read = .ok (.int n) := by
  obtain ⟨hLow, hHigh⟩ := h
  have hAbs : n.natAbs ≤ maxWord := by
    rw [maxWord] at hHigh ⊢
    omega
  have hExtend : extend 0 (decimals n.natAbs) = (n.natAbs, (decimals n.natAbs).length, 0) := by
    rw [extend_eq _ _ (by rw [foldl_decimals]; exact hAbs), foldl_decimals]
  have hSign : ¬decide (n < 0) = true ∨ 0 < n.natAbs ∧ n.natAbs ≤ 0x8000000000000000 := by
    rw [decide_eq_true_eq]
    omega
  have hValue : (if decide (n < 0) = true then -(n.natAbs : Int) else n.natAbs) = n := by
    simp only [decide_eq_true_eq]
    split <;> omega
  have hNumber : (Numeral.ofInt n).value? = some (.int n) := by
    rw [Numeral.value?, Numeral.ofInt, hExtend]
    dsimp only
    rw [if_pos ⟨rfl, rfl, rfl, hSign⟩, hValue]
  rw [Numeral.read, hNumber]

end Enrollment.Json
