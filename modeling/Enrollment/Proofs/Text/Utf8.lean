import Enrollment.Text.Utf8

/-! # Reading back what was written

The bytes of a text are read as its characters, whatever follows them.
-/

namespace Enrollment.Utf8

theorem toNat_charOfNat {n : Nat} (h : n.isValidChar) : (Char.ofNat n).toNat = n := by
  rw [Char.ofNat, dif_pos h]
  rfl

theorem isTail_iff {b : UInt8} : isTail b = true ↔ 0x80 ≤ b.toNat ∧ b.toNat ≤ 0xBF := by
  simp [isTail, UInt8.le_iff_toNat_le]

theorem next_one {lead : UInt8} (rest : Bytes) (h : lead.toNat < 0x80) :
    next lead rest = (some (Char.ofNat lead.toNat), rest) := by
  unfold next
  rw [if_pos (UInt8.lt_iff_toNat_lt.mpr h)]

theorem next_two {lead b : UInt8} (rest : Bytes) (hLow : 0xC2 ≤ lead.toNat)
    (hHigh : lead.toNat ≤ 0xDF) (hb : isTail b = true) :
    next lead (b :: rest) = (some (Char.ofNat (lead.toNat % 32 * 64 + payload b)), rest) := by
  have h₁ : ¬lead < 0x80 := by
    simp [UInt8.lt_iff_toNat_lt]
    omega
  have h₂ : (0xC2 ≤ lead && lead ≤ 0xDF) = true := by
    simp [UInt8.le_iff_toNat_le, hLow, hHigh]
  unfold next
  rw [if_neg h₁, if_pos h₂]
  simp only [hb, if_true]

theorem next_three {lead b c : UInt8} (rest : Bytes) (hLow : 0xE0 ≤ lead.toNat)
    (hHigh : lead.toNat ≤ 0xEF) (hb : isSecond lead b = true) (hc : isTail c = true) :
    next lead (b :: c :: rest) =
      (some (Char.ofNat ((lead.toNat % 16 * 64 + payload b) * 64 + payload c)), rest) := by
  have h₁ : ¬lead < 0x80 := by
    simp [UInt8.lt_iff_toNat_lt]
    omega
  have h₂ : ¬(0xC2 ≤ lead && lead ≤ 0xDF) = true := by
    simp [UInt8.le_iff_toNat_le]
    omega
  have h₃ : (0xE0 ≤ lead && lead ≤ 0xEF) = true := by
    simp [UInt8.le_iff_toNat_le, hLow, hHigh]
  unfold next
  rw [if_neg h₁, if_neg h₂, if_pos h₃]
  simp only [hb, hc, if_true]

theorem next_four {lead b c d : UInt8} (rest : Bytes) (hLow : 0xF0 ≤ lead.toNat)
    (hHigh : lead.toNat ≤ 0xF4) (hb : isSecond lead b = true) (hc : isTail c = true)
    (hd : isTail d = true) :
    next lead (b :: c :: d :: rest) =
      (some (Char.ofNat
        (((lead.toNat % 8 * 64 + payload b) * 64 + payload c) * 64 + payload d)), rest) := by
  have h₁ : ¬lead < 0x80 := by
    simp [UInt8.lt_iff_toNat_lt]
    omega
  have h₂ : ¬(0xC2 ≤ lead && lead ≤ 0xDF) = true := by
    simp [UInt8.le_iff_toNat_le]
    omega
  have h₃ : ¬(0xE0 ≤ lead && lead ≤ 0xEF) = true := by
    simp [UInt8.le_iff_toNat_le]
    omega
  have h₄ : (0xF0 ≤ lead && lead ≤ 0xF4) = true := by
    simp [UInt8.le_iff_toNat_le, hLow, hHigh]
  unfold next
  rw [if_neg h₁, if_neg h₂, if_neg h₃, if_pos h₄]
  simp only [hb, hc, hd, if_true]

theorem isTail_toUInt8 (n : Nat) : isTail (0x80 + n % 64).toUInt8 = true := by
  rw [isTail_iff, UInt8.toNat_ofNat_of_lt' (show _ < 256 by omega)]
  omega

theorem payload_toUInt8 (n : Nat) : payload (0x80 + n % 64).toUInt8 = n % 64 := by
  rw [payload, UInt8.toNat_ofNat_of_lt' (show _ < 256 by omega)]
  omega

/-- The second byte of a character of three or four bytes is in range for its lead byte: characters
are written in the shortest form and are no surrogates. -/
theorem isSecond_of {lead b : UInt8} (hb : isTail b = true)
    (hE0 : lead.toNat = 0xE0 → 0xA0 ≤ b.toNat) (hED : lead.toNat = 0xED → b.toNat ≤ 0x9F)
    (hF0 : lead.toNat = 0xF0 → 0x90 ≤ b.toNat) (hF4 : lead.toNat = 0xF4 → b.toNat ≤ 0x8F) :
    isSecond lead b = true := by
  obtain ⟨hLow, hHigh⟩ := isTail_iff.mp hb
  unfold isSecond
  split
  · next hLead =>
    subst hLead
    simp [UInt8.le_iff_toNat_le, hE0, hHigh]
  split
  · next hLead =>
    subst hLead
    simp [UInt8.le_iff_toNat_le, hED, hLow]
  split
  · next hLead =>
    subst hLead
    simp [UInt8.le_iff_toNat_le, hF0, hHigh]
  split
  · next hLead =>
    subst hLead
    simp [UInt8.le_iff_toNat_le, hF4, hLow]
  · exact hb

/-- A byte of a character is the character itself or lies outside ASCII. -/
theorem of_mem_encodeChar {c : Char} {b : UInt8} (h : b ∈ encodeChar c) :
    b.toNat = c.toNat ∨ 0x80 ≤ b.toNat := by
  have hValid : c.toNat < 0xD800 ∨ 0xDFFF < c.toNat ∧ c.toNat < 0x110000 := c.valid
  have hTail (n : Nat) : 0x80 ≤ (0x80 + n % 64).toUInt8.toNat :=
    (isTail_iff.mp (isTail_toUInt8 n)).1
  unfold encodeChar at h
  generalize c.toNat = n at h hValid ⊢
  dsimp only at h
  split at h
  · rw [List.mem_singleton.mp h, UInt8.toNat_ofNat_of_lt' (show _ < 256 by omega)]
    exact .inl rfl
  split at h
  · have hLead : (0xC0 + n / 64).toUInt8.toNat = 0xC0 + n / 64 :=
      UInt8.toNat_ofNat_of_lt' (show _ < 256 by omega)
    simp only [List.mem_cons, List.not_mem_nil, or_false] at h
    rcases h with rfl | rfl
    · rw [hLead]; omega
    · exact .inr (hTail _)
  split at h
  · have hLead : (0xE0 + n / 4096).toUInt8.toNat = 0xE0 + n / 4096 :=
      UInt8.toNat_ofNat_of_lt' (show _ < 256 by omega)
    simp only [List.mem_cons, List.not_mem_nil, or_false] at h
    rcases h with rfl | rfl | rfl
    · rw [hLead]; omega
    · exact .inr (hTail _)
    · exact .inr (hTail _)
  · have hLead : (0xF0 + n / 262144).toUInt8.toNat = 0xF0 + n / 262144 :=
      UInt8.toNat_ofNat_of_lt' (show _ < 256 by omega)
    simp only [List.mem_cons, List.not_mem_nil, or_false] at h
    rcases h with rfl | rfl | rfl | rfl
    · rw [hLead]; omega
    · exact .inr (hTail _)
    · exact .inr (hTail _)
    · exact .inr (hTail _)

theorem scalars_cons (b : UInt8) (rest : Bytes) :
    scalars (b :: rest) = (next b rest).1 :: scalars (next b rest).2 := by
  rw [scalars]

theorem scalars_of_next {b : UInt8} {rest after : Bytes} {c : Char}
    (h : next b rest = (some c, after)) : scalars (b :: rest) = some c :: scalars after := by
  rw [scalars_cons, h]

theorem scalars_encodeChar (c : Char) (rest : Bytes) :
    scalars (encodeChar c ++ rest) = some c :: scalars rest := by
  have hChar (n : Nat) (h : n = c.toNat) : Char.ofNat n = c := by rw [h, Char.ofNat_toNat]
  have hValid : c.toNat < 0xD800 ∨ 0xDFFF < c.toNat ∧ c.toNat < 0x110000 := c.valid
  unfold encodeChar
  generalize hn : c.toNat = n at hValid
  dsimp only
  split
  · next h =>
    refine scalars_of_next ((next_one rest ?_).trans ?_)
    · rw [UInt8.toNat_ofNat_of_lt' (show _ < 256 by omega)]
      exact h
    · rw [hChar _ (by rw [UInt8.toNat_ofNat_of_lt' (show _ < 256 by omega), hn])]
  split
  · next h =>
    have hLead : (0xC0 + n / 64).toUInt8.toNat = 0xC0 + n / 64 :=
      UInt8.toNat_ofNat_of_lt' (show _ < 256 by omega)
    refine scalars_of_next ((next_two rest ?_ ?_ (isTail_toUInt8 n)).trans ?_)
    · rw [hLead]; omega
    · rw [hLead]; omega
    · rw [hChar _ (by rw [hLead, payload_toUInt8, hn]; omega)]
  split
  · next h =>
    have hLead : (0xE0 + n / 4096).toUInt8.toNat = 0xE0 + n / 4096 :=
      UInt8.toNat_ofNat_of_lt' (show _ < 256 by omega)
    have hSecond : (0x80 + n / 64 % 64).toUInt8.toNat = 0x80 + n / 64 % 64 :=
      UInt8.toNat_ofNat_of_lt' (show _ < 256 by omega)
    refine scalars_of_next ((next_three rest ?_ ?_ ?_ (isTail_toUInt8 n)).trans ?_)
    · rw [hLead]; omega
    · rw [hLead]; omega
    · refine isSecond_of (isTail_toUInt8 _) ?_ ?_ ?_ ?_ <;> rw [hLead, hSecond] <;> omega
    · rw [hChar _ (by rw [hLead, payload_toUInt8, payload_toUInt8, hn]; omega)]
  · next h =>
    have hLead : (0xF0 + n / 262144).toUInt8.toNat = 0xF0 + n / 262144 :=
      UInt8.toNat_ofNat_of_lt' (show _ < 256 by omega)
    have hSecond : (0x80 + n / 4096 % 64).toUInt8.toNat = 0x80 + n / 4096 % 64 :=
      UInt8.toNat_ofNat_of_lt' (show _ < 256 by omega)
    refine scalars_of_next
      ((next_four rest ?_ ?_ ?_ (isTail_toUInt8 _) (isTail_toUInt8 n)).trans ?_)
    · rw [hLead]; omega
    · rw [hLead]; omega
    · refine isSecond_of (isTail_toUInt8 _) ?_ ?_ ?_ ?_ <;> rw [hLead, hSecond] <;> omega
    · rw [hChar _ (by rw [hLead, payload_toUInt8, payload_toUInt8, payload_toUInt8, hn]; omega)]

theorem scalars_encode (cs : List Char) (rest : Bytes) :
    scalars (cs.flatMap encodeChar ++ rest) = cs.map some ++ scalars rest := by
  induction cs with
  | nil => rfl
  | cons c cs ih =>
    rw [List.flatMap_cons, List.append_assoc, scalars_encodeChar, ih]
    rfl

theorem mapM_id_some (cs : List Char) : (cs.map some).mapM id = some cs := by
  induction cs with
  | nil => rfl
  | cons c cs ih =>
    rw [List.map_cons, List.mapM_cons, ih]
    rfl

theorem decode?_flatMap (cs : List Char) :
    decode? (cs.flatMap encodeChar) = some (String.ofList cs) := by
  have h := scalars_encode cs []
  rw [List.append_nil, scalars, List.append_nil] at h
  rw [decode?, h, mapM_id_some]
  rfl

theorem decode?_encode (s : String) : decode? (encode s) = some s := by
  rw [encode, decode?_flatMap, String.ofList_toList]

theorem encode_injective {s t : String} (h : encode s = encode t) : s = t := by
  have hRead := decode?_encode s
  rw [h, decode?_encode] at hRead
  exact (Option.some.inj hRead).symm

theorem encode_append (s t : String) : encode (s ++ t) = encode s ++ encode t := by
  rw [encode, String.toList_append, List.flatMap_append]
  rfl

theorem encode_ofList_ascii {bytes : Bytes} (h : ∀ b ∈ bytes, b.toNat < 128) :
    encode (String.ofList (bytes.map fun b => Char.ofNat b.toNat)) = bytes := by
  rw [encode, String.toList_ofList]
  induction bytes with
  | nil => rfl
  | cons b bytes ih =>
    have hb : b.toNat < 128 := h b List.mem_cons_self
    have hChar : (Char.ofNat b.toNat).toNat = b.toNat := toNat_charOfNat (Or.inl (by omega))
    rw [List.map_cons, List.flatMap_cons, ih fun c hc => h c (List.mem_cons_of_mem _ hc),
      encodeChar, hChar]
    simp [hb]

end Enrollment.Utf8
