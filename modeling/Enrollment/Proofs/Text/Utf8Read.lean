import Enrollment.Proofs.Text.Utf8

/-! # What can be read was written

Bytes are read as a text only if they are the bytes of that text: UTF-8 leaves no second way to
write it.
-/

namespace Enrollment.Utf8

variable {lead b c d : UInt8}

theorem toUInt8_eq_iff {n : Nat} (h : n < 256) : n.toUInt8 = b ↔ n = b.toNat := by
  rw [← UInt8.toNat_inj, UInt8.toNat_ofNat_of_lt' h]

theorem of_isSecond (h : isSecond lead b = true) : isTail b = true ∧
    (lead.toNat = 0xE0 → 0xA0 ≤ b.toNat) ∧ (lead.toNat = 0xED → b.toNat ≤ 0x9F) ∧
      (lead.toNat = 0xF0 → 0x90 ≤ b.toNat) ∧ (lead.toNat = 0xF4 → b.toNat ≤ 0x8F) := by
  unfold isSecond at h
  rw [isTail_iff]
  split at h
  · next hLead =>
    subst hLead
    simp [UInt8.le_iff_toNat_le] at h ⊢
    omega
  split at h
  · next hLead =>
    subst hLead
    simp [UInt8.le_iff_toNat_le] at h ⊢
    omega
  split at h
  · next hLead =>
    subst hLead
    simp [UInt8.le_iff_toNat_le] at h ⊢
    omega
  split at h
  · next hLead =>
    subst hLead
    simp [UInt8.le_iff_toNat_le] at h ⊢
    omega
  · next hE0 hED hF0 hF4 =>
    rw [isTail_iff] at h
    simp only [← UInt8.toNat_inj] at hE0 hED hF0 hF4
    refine ⟨h, ?_, ?_, ?_, ?_⟩
    · intro hLead
      exact absurd hLead hE0
    · intro hLead
      exact absurd hLead hED
    · intro hLead
      exact absurd hLead hF0
    · intro hLead
      exact absurd hLead hF4

theorem encodeChar_one (h : lead.toNat < 0x80) : encodeChar (Char.ofNat lead.toNat) = [lead] := by
  rw [encodeChar, toNat_charOfNat (Or.inl (by omega)), if_pos h,
    (toUInt8_eq_iff (b := lead) (by omega)).mpr rfl]

theorem encodeChar_two (hLow : 0xC2 ≤ lead.toNat) (hHigh : lead.toNat ≤ 0xDF)
    (hb : isTail b = true) :
    encodeChar (Char.ofNat (lead.toNat % 32 * 64 + payload b)) = [lead, b] := by
  obtain ⟨hbLow, hbHigh⟩ := isTail_iff.mp hb
  rw [payload, encodeChar, toNat_charOfNat (Or.inl (by omega)), if_neg (by omega),
    if_pos (by omega), (toUInt8_eq_iff (b := lead) (by omega)).mpr (by omega),
    (toUInt8_eq_iff (b := b) (by omega)).mpr (by omega)]

theorem encodeChar_three (hLow : 0xE0 ≤ lead.toNat) (hHigh : lead.toNat ≤ 0xEF)
    (hb : isSecond lead b = true) (hc : isTail c = true) :
    encodeChar (Char.ofNat ((lead.toNat % 16 * 64 + payload b) * 64 + payload c)) =
      [lead, b, c] := by
  obtain ⟨hbTail, hE0, hED, -, -⟩ := of_isSecond hb
  obtain ⟨hbLow, hbHigh⟩ := isTail_iff.mp hbTail
  obtain ⟨hcLow, hcHigh⟩ := isTail_iff.mp hc
  rw [payload, payload]
  have hValid : ((lead.toNat % 16 * 64 + b.toNat % 64) * 64 + c.toNat % 64).isValidChar := by
    unfold Nat.isValidChar
    omega
  rw [encodeChar, toNat_charOfNat hValid, if_neg (by omega), if_neg (by omega), if_pos (by omega),
    (toUInt8_eq_iff (b := lead) (by omega)).mpr (by omega),
    (toUInt8_eq_iff (b := b) (by omega)).mpr (by omega),
    (toUInt8_eq_iff (b := c) (by omega)).mpr (by omega)]

theorem encodeChar_four (hLow : 0xF0 ≤ lead.toNat) (hHigh : lead.toNat ≤ 0xF4)
    (hb : isSecond lead b = true) (hc : isTail c = true) (hd : isTail d = true) :
    encodeChar (Char.ofNat
      (((lead.toNat % 8 * 64 + payload b) * 64 + payload c) * 64 + payload d)) =
      [lead, b, c, d] := by
  obtain ⟨hbTail, -, -, hF0, hF4⟩ := of_isSecond hb
  obtain ⟨hbLow, hbHigh⟩ := isTail_iff.mp hbTail
  obtain ⟨hcLow, hcHigh⟩ := isTail_iff.mp hc
  obtain ⟨hdLow, hdHigh⟩ := isTail_iff.mp hd
  rw [payload, payload, payload]
  have hValid : (((lead.toNat % 8 * 64 + b.toNat % 64) * 64 + c.toNat % 64) * 64 +
      d.toNat % 64).isValidChar := by
    unfold Nat.isValidChar
    omega
  rw [encodeChar, toNat_charOfNat hValid, if_neg (by omega), if_neg (by omega), if_neg (by omega),
    (toUInt8_eq_iff (b := lead) (by omega)).mpr (by omega),
    (toUInt8_eq_iff (b := b) (by omega)).mpr (by omega),
    (toUInt8_eq_iff (b := c) (by omega)).mpr (by omega),
    (toUInt8_eq_iff (b := d) (by omega)).mpr (by omega)]

/-- The bytes that a scalar is read from are those that it is written with. -/
theorem eq_encodeChar_of_next {rest after : Bytes} {scalar : Char}
    (h : next lead rest = (some scalar, after)) : lead :: rest = encodeChar scalar ++ after := by
  unfold next at h
  split at h
  · next hLead =>
    cases h
    rw [encodeChar_one (UInt8.lt_iff_toNat_lt.mp hLead)]
    rfl
  split at h
  · next hLead =>
    obtain ⟨hLow, hHigh⟩ : 0xC2 ≤ lead.toNat ∧ lead.toNat ≤ 0xDF := by
      simpa [UInt8.le_iff_toNat_le] using hLead
    repeat' split at h
    all_goals cases h
    next hb =>
      rw [encodeChar_two hLow hHigh hb]
      rfl
  split at h
  · next hLead =>
    obtain ⟨hLow, hHigh⟩ : 0xE0 ≤ lead.toNat ∧ lead.toNat ≤ 0xEF := by
      simpa [UInt8.le_iff_toNat_le] using hLead
    repeat' split at h
    all_goals cases h
    next hb _ _ hc =>
      rw [encodeChar_three hLow hHigh hb hc]
      rfl
  split at h
  · next hLead =>
    obtain ⟨hLow, hHigh⟩ : 0xF0 ≤ lead.toNat ∧ lead.toNat ≤ 0xF4 := by
      simpa [UInt8.le_iff_toNat_le] using hLead
    repeat' split at h
    all_goals cases h
    next hb _ _ hc _ _ hd =>
      rw [encodeChar_four hLow hHigh hb hc hd]
      rfl
  · cases h

theorem eq_flatMap_of_scalars {bytes : Bytes} {cs : List Char}
    (h : scalars bytes = cs.map some) : bytes = cs.flatMap encodeChar := by
  induction cs generalizing bytes with
  | nil =>
    cases bytes with
    | nil => rfl
    | cons lead rest =>
      rw [scalars_cons] at h
      cases h
  | cons scalar cs ih =>
    cases bytes with
    | nil =>
      rw [scalars] at h
      cases h
    | cons lead rest =>
      rw [scalars_cons, List.map_cons, List.cons.injEq] at h
      obtain ⟨hScalar, hRest⟩ := h
      have hBytes : lead :: rest = encodeChar scalar ++ (next lead rest).2 :=
        eq_encodeChar_of_next (Prod.ext hScalar rfl)
      rw [hBytes, List.flatMap_cons, ← ih hRest]

theorem eq_map_some_of_mapM {xs : List (Option Char)} {cs : List Char}
    (h : xs.mapM id = some cs) : xs = cs.map some := by
  induction xs generalizing cs with
  | nil =>
    cases h
    rfl
  | cons x xs ih =>
    rw [List.mapM_cons] at h
    obtain ⟨scalar, hHead, h⟩ := Option.bind_eq_some_iff.mp h
    obtain ⟨tail, hTail, h⟩ := Option.bind_eq_some_iff.mp h
    obtain rfl := Option.some.inj h
    rw [List.map_cons, ← ih hTail]
    exact congrArg (· :: xs) hHead

theorem decode?_eq_some_iff {bytes : Bytes} {s : String} :
    decode? bytes = some s ↔ encode s = bytes := by
  constructor
  · intro h
    obtain ⟨cs, hScalars, rfl⟩ := Option.map_eq_some_iff.mp h
    rw [encode, String.toList_ofList]
    exact (eq_flatMap_of_scalars (eq_map_some_of_mapM hScalars)).symm
  · rintro rfl
    exact decode?_encode s

end Enrollment.Utf8
