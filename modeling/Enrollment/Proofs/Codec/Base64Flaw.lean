import Enrollment.Proofs.Codec.Base64Read

/-! # What is no base64

What can be wrong with a text without padding: a byte that is no symbol, as padding is, a length
that no bytes have, or something in the unused bits of the last symbol. Where nothing is wrong there
are bytes that are written so.
-/

namespace Enrollment.Base64

/-- What the value of the last symbol has to be a multiple of, by the symbols in the last group. -/
def spare : Nat → Nat
  | 2 => 16
  | 3 => 4
  | _ => 1

inductive Flawed (bytes : Bytes) : Prop where
  | symbol {b : UInt8} (hMem : b ∈ bytes) (hForeign : Alphabet.url.value? b = none)
  | length (h : bytes.length % 4 = 1)
  | unused {b : UInt8} {v : Nat} (hLast : bytes.getLast? = some b)
    (hValue : Alphabet.url.value? b = some v) (h : v % spare (bytes.length % 4) ≠ 0)

variable {bytes rest : Bytes}

theorem unused_encodeBytes {b : UInt8} {v : Nat}
    (hLast : (encodeBytes .url bytes).getLast? = some b)
    (hValue : Alphabet.url.value? b = some v) :
    v % spare ((encodeBytes .url bytes).length % 4) = 0 := by
  induction bytes using encodeBytes.induct with
  | case1 => cases hLast
  | case2 a =>
    have ha := a.toNat_lt
    obtain rfl : Alphabet.url.byte (a.toNat % 4 * 16) = b := Option.some.inj hLast
    rw [value?_byte .url (by omega)] at hValue
    cases hValue
    exact Nat.mul_mod_left _ _
  | case3 a b' =>
    have hb := b'.toNat_lt
    obtain rfl : Alphabet.url.byte (b'.toNat % 16 * 4) = b := Option.some.inj hLast
    rw [value?_byte .url (by omega)] at hValue
    cases hValue
    exact Nat.mul_mod_left _ _
  | case4 a b' c rest ih =>
    have hLength (n : Nat) : (n + 1 + 1 + 1 + 1) % 4 = n % 4 := by omega
    rw [encodeBytes] at hLast ⊢
    simp only [List.length_cons, hLength]
    by_cases hRest : encodeBytes .url rest = []
    · rw [hRest]
      exact Nat.mod_one v
    · obtain ⟨s, symbols, hSymbols⟩ := List.exists_cons_of_ne_nil hRest
      rw [hSymbols] at hLast ih ⊢
      exact ih hLast

theorem not_flawed_encodeBytes (bytes : Bytes) : ¬Flawed (encodeBytes .url bytes) := by
  rintro (⟨hMem, hForeign⟩ | hLength | ⟨hLast, hValue, hUnused⟩)
  · obtain ⟨v, hValue⟩ := value?_of_mem_encodeBytes bytes _ hMem
    rw [hForeign] at hValue
    cases hValue
  · exact length_encodeBytes_mod .url bytes hLength
  · exact hUnused (unused_encodeBytes hLast hValue)

theorem Flawed.after_group {group : Bytes} (hGroup : group.length = 4) (h : Flawed rest) :
    Flawed (group ++ rest) := by
  have hLength : (group ++ rest).length % 4 = rest.length % 4 := by
    rw [List.length_append, hGroup, Nat.add_mod_left]
  cases h with
  | symbol hMem hForeign => exact .symbol (List.mem_append_right _ hMem) hForeign
  | length h => exact .length (hLength.trans h)
  | unused hLast hValue h =>
    refine .unused ?_ hValue (hLength ▸ h)
    rw [List.getLast?_append, hLast]
    rfl

theorem exists_symbols (h : ∀ b ∈ bytes, Alphabet.url.value? b ≠ none) :
    ∃ symbols : List Nat, bytes = symbols.map Alphabet.url.byte ∧ ∀ v ∈ symbols, v < 64 := by
  induction bytes with
  | nil => exact ⟨[], rfl, nofun⟩
  | cons b bytes ih =>
    obtain ⟨hb, hRest⟩ := List.forall_mem_cons.mp h
    obtain ⟨v, hValue⟩ := Option.ne_none_iff_exists'.mp hb
    obtain ⟨symbols, rfl, hSymbols⟩ := ih hRest
    obtain ⟨hv, rfl⟩ := byte_of_value? hValue
    exact ⟨v :: symbols, rfl, List.forall_mem_cons.mpr ⟨hv, hSymbols⟩⟩

/-- Symbols with nothing wrong are read group by group. -/
theorem exists_encodeBytes : ∀ symbols : List Nat, (∀ v ∈ symbols, v < 64) →
    ¬Flawed (symbols.map Alphabet.url.byte) →
    ∃ out, symbols.map Alphabet.url.byte = encodeBytes .url out
  | [], _, _ => ⟨[], rfl⟩
  | [_], _, h => absurd (.length rfl) h
  | [v, w], hSymbols, h => by
    have hw : w < 64 := hSymbols w (by simp)
    have hUnused : w % 16 = 0 :=
      Decidable.not_not.mp fun hUnused => h (.unused rfl (value?_byte .url hw) hUnused)
    exact ⟨_, ((Ends.one hUnused).encodeBytes_eq hSymbols).symm⟩
  | [v, w, x], hSymbols, h => by
    have hx : x < 64 := hSymbols x (by simp)
    have hUnused : x % 4 = 0 :=
      Decidable.not_not.mp fun hUnused => h (.unused rfl (value?_byte .url hx) hUnused)
    exact ⟨_, ((Ends.two hUnused).encodeBytes_eq hSymbols).symm⟩
  | v :: w :: x :: y :: rest, hSymbols, h => by
    simp only [List.forall_mem_cons] at hSymbols
    obtain ⟨hv, hw, hx, hy, hRest⟩ := hSymbols
    have hGroup : ([v, w, x, y].map Alphabet.url.byte).length = 4 := rfl
    obtain ⟨out, hOut⟩ :=
      exists_encodeBytes rest hRest fun hFlaw => h (hFlaw.after_group hGroup)
    refine ⟨group v w x y ++ out, ?_⟩
    rw [encodeBytes_group hv hw hx hy, ← hOut]
    rfl

theorem flawed_iff : Flawed bytes ↔ ¬∃ out, bytes = encodeBytes .url out := by
  constructor
  · rintro h ⟨out, rfl⟩
    exact not_flawed_encodeBytes out h
  · intro hNone
    refine Classical.byContradiction fun hSound => hNone ?_
    have hKnown (b : UInt8) (hb : b ∈ bytes) : Alphabet.url.value? b ≠ none :=
      fun hForeign => hSound (.symbol hb hForeign)
    obtain ⟨symbols, rfl, hSymbols⟩ := exists_symbols hKnown
    exact exists_encodeBytes symbols hSymbols hSound

end Enrollment.Base64
